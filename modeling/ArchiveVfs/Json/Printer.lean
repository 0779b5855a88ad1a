import ArchiveVfs.Bytes
import ArchiveVfs.Json.Basic

/-!
# Written form of JSON

Values are written without blanks. In strings the quote, the backslash and the
control characters are escaped, all others stand for themselves.
-/

namespace ArchiveVfs.Json

/-- A character of a string as it is written. -/
def charWritten (c : Char) : List Char :=
  match c with
  | '\x22' => ['\\', '\x22']
  | '\\' => ['\\', '\\']
  | '\x08' => ['\\', 'b']
  | '\x0c' => ['\\', 'f']
  | '\n' => ['\\', 'n']
  | '\x0d' => ['\\', 'r']
  | '\t' => ['\\', 't']
  | c => if c < ' ' then '\\' :: 'u' :: '0' :: '0' :: hexByte c.toUInt8 else [c]

/-- A string as it is written. -/
def stringWritten (content : String) : List Char :=
  '\x22' :: (content.toList.flatMap charWritten ++ ['\x22'])

mutual

/-- A value as it is written. -/
def written : Json → List Char
  | .null => ['n', 'u', 'l', 'l']
  | .bool true => ['t', 'r', 'u', 'e']
  | .bool false => ['f', 'a', 'l', 's', 'e']
  | .number digits => digits
  | .text value => stringWritten value
  | .array [] => ['[', ']']
  | .array (item :: rest) => '[' :: (written item ++ itemsWritten rest ++ [']'])
  | .object [] => ['\x7b', '\x7d']
  | .object (member :: rest) =>
    '\x7b' :: (memberWritten member ++ membersWritten rest ++ ['\x7d'])

/-- Further items of an array, each behind its comma. -/
def itemsWritten : List Json → List Char
  | [] => []
  | item :: rest => ',' :: (written item ++ itemsWritten rest)

/-- A member of an object. -/
def memberWritten : String × Json → List Char
  | (key, value) => stringWritten key ++ ':' :: written value

/-- Further members of an object, each behind its comma. -/
def membersWritten : List (String × Json) → List Char
  | [] => []
  | member :: rest => ',' :: (memberWritten member ++ membersWritten rest)

end

/-- The text of a value. -/
def render (value : Json) : String :=
  String.ofList value.written

end ArchiveVfs.Json
