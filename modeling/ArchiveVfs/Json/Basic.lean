/-!
# JSON values

A JSON text is a tree of values. Numbers keep their written form, members of
objects keep their order.
-/

namespace ArchiveVfs

/-- A JSON value. -/
inductive Json where
  /-- The null value. -/
  | null
  /-- A truth value. -/
  | bool (value : Bool)
  /-- A number as it is written. -/
  | number (written : List Char)
  /-- A string. -/
  | text (value : String)
  /-- Values in order. -/
  | array (items : List Json)
  /-- Keys with values, in order. -/
  | object (members : List (String × Json))
  deriving Repr, Inhabited

end ArchiveVfs
