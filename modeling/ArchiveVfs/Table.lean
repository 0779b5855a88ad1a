/-!
# Tables keyed by text

A table holds one value for each of its keys and lists them in the order of
their characters. `get?_insert` and `get?_erase` say what the operations do to
look-ups, `sorted` that the entries are strictly increasing.
-/

namespace ArchiveVfs

/-- Values under keys, in strictly increasing order of the keys. -/
@[ext] structure Table (α : Type) where
  /-- The keys with their values. -/
  entries : List (String × α) := []
  /-- The keys increase. -/
  sorted : entries.Pairwise (fun a b => a.1 < b.1) := by exact .nil
  deriving DecidableEq

namespace Table

variable {α : Type}

/-- The table without entries. -/
def empty : Table α := {}

instance : Inhabited (Table α) := ⟨empty⟩

/-- The value that a list of entries has for `key`. -/
def find? (key : String) : List (String × α) → Option α
  | [] => none
  | (k, value) :: rest => if k = key then some value else find? key rest

/-- A list of entries with `value` put under `key`. -/
def insertInto (key : String) (value : α) : List (String × α) → List (String × α)
  | [] => [(key, value)]
  | (k, old) :: rest =>
    if key < k then (key, value) :: (k, old) :: rest
    else if key = k then (key, value) :: rest
    else (k, old) :: insertInto key value rest

theorem mem_insertInto {key : String} {value : α} {entries : List (String × α)}
    {entry : String × α} (h : entry ∈ insertInto key value entries) :
    entry = (key, value) ∨ entry ∈ entries := by
  induction entries with
  | nil => simpa [insertInto] using h
  | cons head rest ih =>
    unfold insertInto at h
    grind

theorem sorted_insertInto (key : String) (value : α) {entries : List (String × α)}
    (h : entries.Pairwise (fun a b => a.1 < b.1)) :
    (insertInto key value entries).Pairwise (fun a b => a.1 < b.1) := by
  induction entries with
  | nil => simp [insertInto]
  | cons head rest ih =>
    obtain ⟨hhead, hrest⟩ := List.pairwise_cons.1 h
    unfold insertInto
    split
    next hlt =>
      refine List.pairwise_cons.2 ⟨fun entry hentry => ?_, h⟩
      rcases List.mem_cons.1 hentry with rfl | hin
      · exact hlt
      · exact String.lt_trans hlt (hhead entry hin)
    next hlt =>
      split
      next heq => exact List.pairwise_cons.2 ⟨fun entry hin => heq ▸ hhead entry hin, hrest⟩
      next hne =>
        refine List.pairwise_cons.2 ⟨fun entry hin => ?_, ih hrest⟩
        rcases mem_insertInto hin with rfl | hin
        · grind
        · exact hhead entry hin

theorem find?_insertInto (key other : String) (value : α) (entries : List (String × α)) :
    find? other (insertInto key value entries)
      = if key = other then some value else find? other entries := by
  induction entries with
  | nil => simp [insertInto, find?]
  | cons head rest ih =>
    unfold insertInto
    grind [find?]

/-- The value under a key. -/
def get? (table : Table α) (key : String) : Option α :=
  find? key table.entries

/-- Whether there is a value under the key. -/
def contains (table : Table α) (key : String) : Bool :=
  (table.get? key).isSome

/-- The keys in order. -/
def keys (table : Table α) : List String :=
  table.entries.map (·.1)

/-- The table with `value` under `key`, in place of any earlier one. -/
def insert (table : Table α) (key : String) (value : α) : Table α where
  entries := insertInto key value table.entries
  sorted := sorted_insertInto key value table.sorted

/-- The table with the value under `key` changed, if there is one. -/
def adjust (table : Table α) (key : String) (change : α → α) : Table α :=
  match table.get? key with
  | some value => table.insert key (change value)
  | none => table

/-- The table without the key. -/
def erase (table : Table α) (key : String) : Table α where
  entries := table.entries.filter fun entry => entry.1 ≠ key
  sorted := table.sorted.filter _

/-- The table of some entries; of equal keys the last one counts. -/
def ofList (entries : List (String × α)) : Table α :=
  entries.foldl (fun table entry => table.insert entry.1 entry.2) empty

@[simp] theorem get?_empty (key : String) : (empty : Table α).get? key = none := rfl

theorem get?_insert (table : Table α) (key other : String) (value : α) :
    (table.insert key value).get? other
      = if key = other then some value else table.get? other :=
  find?_insertInto key other value table.entries

theorem get?_adjust (table : Table α) (key other : String) (change : α → α) :
    (table.adjust key change).get? other
      = if key = other then (table.get? other).map change else table.get? other := by
  unfold adjust
  split
  next value hvalue => grind [get?_insert]
  next hnone => grind

theorem get?_erase (table : Table α) (key other : String) :
    (table.erase key).get? other = if key = other then none else table.get? other := by
  show find? other (table.entries.filter _) = _
  unfold get?
  generalize table.entries = entries
  induction entries with
  | nil => simp [find?]
  | cons head rest ih => grind [find?]

theorem contains_insert (table : Table α) (key other : String) (value : α) :
    (table.insert key value).contains other = true
      ↔ other = key ∨ table.contains other = true := by
  rw [contains, contains, get?_insert]
  split <;> grind

theorem contains_adjust (table : Table α) (key other : String) (change : α → α) :
    (table.adjust key change).contains other = table.contains other := by
  rw [contains, contains, get?_adjust]
  split
  · exact Option.isSome_map
  · rfl

theorem ne_of_find?_eq_none {key : String} {entries : List (String × α)}
    (h : find? key entries = none) : ∀ entry ∈ entries, entry.1 ≠ key := by
  induction entries with
  | nil => simp
  | cons head rest ih => grind [find?]

theorem filter_insertInto (key : String) (value : α) (entries : List (String × α)) :
    (insertInto key value entries).filter (fun entry => entry.1 ≠ key)
      = entries.filter (fun entry => entry.1 ≠ key) := by
  induction entries with
  | nil => simp [insertInto]
  | cons head rest ih =>
    unfold insertInto
    split
    · simp
    next =>
      split
      next heq => simp [heq]
      next => rw [List.filter_cons, List.filter_cons, ih]

/-- A key that a table does not have leaves no trace when it is put in and taken out. -/
theorem erase_insert {table : Table α} {key : String} (value : α)
    (h : table.contains key = false) : (table.insert key value).erase key = table := by
  have hnone : find? key table.entries = none := by simpa [contains, get?] using h
  have hkeep : table.entries.filter (fun entry => entry.1 ≠ key) = table.entries :=
    List.filter_eq_self.2 fun entry hin => by simpa using ne_of_find?_eq_none hnone entry hin
  apply Table.ext
  rw [← hkeep]
  exact filter_insertInto key value table.entries

/-- A key behind all others is put at the end. -/
theorem insertInto_append {key : String} (value : α) {entries : List (String × α)}
    (h : ∀ entry ∈ entries, entry.1 < key) :
    insertInto key value entries = entries ++ [(key, value)] := by
  induction entries with
  | nil => rfl
  | cons head rest ih =>
    obtain ⟨hhead, hrest⟩ := List.forall_mem_cons.1 h
    rw [insertInto, if_neg (String.lt_asymm hhead), if_neg (String.ne_of_lt hhead).symm, ih hrest]
    rfl

/-- Entries behind all others are put at the end one by one. -/
theorem entries_foldl_insert (table : Table α) (entries : List (String × α))
    (h : (table.entries ++ entries).Pairwise fun a b => a.1 < b.1) :
    (entries.foldl (fun table entry => table.insert entry.1 entry.2) table).entries
      = table.entries ++ entries := by
  induction entries generalizing table with
  | nil => exact (List.append_nil _).symm
  | cons entry rest ih =>
    have hbehind : ∀ other ∈ table.entries, other.1 < entry.1 := by
      intro other hin
      exact (List.pairwise_append.1 h).2.2 other hin entry List.mem_cons_self
    have hinsert : (table.insert entry.1 entry.2).entries = table.entries ++ [entry] :=
      insertInto_append entry.2 hbehind
    rw [List.foldl_cons, ih, hinsert, List.append_assoc]
    · rfl
    · rwa [hinsert, List.append_assoc]

/-- A table is made of its entries. -/
theorem ofList_entries (table : Table α) : ofList table.entries = table :=
  Table.ext (entries_foldl_insert empty table.entries table.sorted)

theorem mem_keys {table : Table α} {key : String} :
    key ∈ table.keys ↔ table.contains key = true := by
  show key ∈ table.entries.map (·.1) ↔ (find? key table.entries).isSome = true
  generalize table.entries = entries
  induction entries with
  | nil => simp [find?]
  | cons head rest ih => grind [find?]

theorem find?_eq_none {key : String} {entries : List (String × α)}
    (h : ∀ entry ∈ entries, entry.1 ≠ key) : find? key entries = none := by
  induction entries with
  | nil => rfl
  | cons head rest ih =>
    obtain ⟨hhead, hrest⟩ := List.forall_mem_cons.1 h
    rw [find?, if_neg hhead, ih hrest]

/-- Of two tables, of which one is put into the other, the one put in comes first. -/
theorem get?_foldl_insert (table added : Table α) (key : String) :
    (added.entries.foldl (fun table entry => table.insert entry.1 entry.2) table).get? key
      = (added.get? key).or (table.get? key) := by
  have hsorted := added.sorted
  show _ = (find? key added.entries).or _
  generalize added.entries = entries at hsorted
  induction entries generalizing table with
  | nil => rfl
  | cons head rest ih =>
    obtain ⟨hhead, hrest⟩ := List.pairwise_cons.1 hsorted
    rw [List.foldl_cons, ih _ hrest, get?_insert, find?]
    split
    · rename_i heq
      -- the key is not among the later ones, which are greater
      have hlater : find? key rest = none :=
        find?_eq_none fun entry hin => (String.ne_of_lt (heq ▸ hhead entry hin)).symm
      rw [hlater]
      rfl
    · rfl

/-- Every entry is found under its key. -/
theorem get?_of_mem {table : Table α} {key : String} {value : α}
    (h : (key, value) ∈ table.entries) : table.get? key = some value := by
  have hsorted := table.sorted
  show find? key table.entries = some value
  generalize table.entries = entries at h hsorted
  induction entries with
  | nil => cases h
  | cons head rest ih =>
    obtain ⟨hhead, hrest⟩ := List.pairwise_cons.1 hsorted
    rw [find?]
    rcases List.mem_cons.1 h with rfl | hin
    · rw [if_pos rfl]
    · rw [if_neg (String.ne_of_lt (hhead _ hin)), ih hin hrest]

/-- Keys are listed once each, in increasing order. -/
theorem keys_sorted (table : Table α) : table.keys.Pairwise (· < ·) :=
  List.pairwise_map.2 table.sorted

end Table

end ArchiveVfs
