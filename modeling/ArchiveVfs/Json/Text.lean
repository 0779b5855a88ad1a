import ArchiveVfs.Json.Fault

/-!
# Strings of JSON texts

`readText` reads a string behind its opening quote, `skipText` passes over one. A
string holds no raw control characters. Characters beyond sixteen bits are escaped
as the two halves of a surrogate pair; a string that is passed over may hold a
single half.
-/

namespace ArchiveVfs.Json

/-- The value of a hexadecimal digit. -/
def hexValue? (c : Char) : Option Nat :=
  if c.isDigit then some (c.toNat - 48)
  else if 'a' ≤ c && c ≤ 'f' then some (c.toNat - 87)
  else if 'A' ≤ c && c ≤ 'F' then some (c.toNat - 55)
  else none

/-- The unit that four hexadecimal digits spell. -/
def unitValue? (a b c d : Char) : Option Nat :=
  match hexValue? a, hexValue? b, hexValue? c, hexValue? d with
  | some a, some b, some c, some d => some (((a * 16 + b) * 16 + c) * 16 + d)
  | _, _, _, _ => none

/-- The character that an escape of one letter stands for. -/
def plainEscape? : Char → Option Char
  | '\x22' => some '\x22'
  | '\\' => some '\\'
  | '/' => some '/'
  | 'b' => some '\x08'
  | 'f' => some '\x0c'
  | 'n' => some '\n'
  | 'r' => some '\x0d'
  | 't' => some '\t'
  | _ => none

/-- Whether a unit is the first half of a surrogate pair. -/
def isHighHalf (unit : Nat) : Bool :=
  0xD800 ≤ unit && unit ≤ 0xDBFF

/-- Whether a unit is the second half of a surrogate pair. -/
def isLowHalf (unit : Nat) : Bool :=
  0xDC00 ≤ unit && unit ≤ 0xDFFF

/-- The fault of four bytes that are no hexadecimal digits, or are not there. -/
def unitFault (cs : List Char) : Fault :=
  if (String.ofList (cs.take 4)).utf8ByteSize < 4 then .atEnd .endInText
  else { complaint := .badEscape, rest := cs, further := 4 }

/-- Reads a unit of four hexadecimal digits. -/
def readUnit : List Char → Except Fault (Nat × List Char)
  | a :: b :: c :: d :: rest =>
    match unitValue? a b c d with
    | some value => .ok (value, rest)
    | none => .error (unitFault (a :: b :: c :: d :: rest))
  | cs => .error (unitFault cs)

/-- The character that the two halves of a surrogate pair spell. -/
def pairChar (high low : Nat) : Char :=
  Char.ofNat (0x10000 + (high - 0xD800) * 1024 + (low - 0xDC00))

/-- Reads the escape of a second half, behind that of the first one. -/
def readLowHalf (high : Nat) : List Char → Except Fault (Char × List Char)
  | [] => .error (.atEnd .endInText)
  | ['\\'] => .error (.atEnd .endInText)
  | '\\' :: 'u' :: rest =>
    match readUnit rest with
    | .error fault => .error fault
    | .ok (low, rest) =>
      if isLowHalf low then .ok (pairChar high low, rest) else .error (.before .loneHalf rest)
  | '\\' :: rest => .error (.atNext .brokenPair rest)
  | rest => .error (.atNext .brokenPair rest)

/-- Reads an escape behind its backslash. -/
def readEscape : List Char → Except Fault (Char × List Char)
  | [] => .error (.atEnd .endInText)
  | 'u' :: rest =>
    match readUnit rest with
    | .error fault => .error fault
    | .ok (value, rest) =>
      if isLowHalf value then .error (.before .loneHalf rest)
      else if isHighHalf value then readLowHalf value rest
      else .ok (Char.ofNat value, rest)
  | e :: rest =>
    match plainEscape? e with
    | some c => .ok (c, rest)
    | none => .error (.atNext .badEscape (e :: rest))

/-- Passes over an escape behind its backslash. -/
def skipEscape : List Char → Except Fault (List Char)
  | [] => .error (.atEnd .endInText)
  | 'u' :: rest =>
    match readUnit rest with
    | .error fault => .error fault
    | .ok (_, rest) => .ok rest
  | e :: rest =>
    if (plainEscape? e).isSome then .ok rest else .error (.atNext .badEscape (e :: rest))

theorem readUnit_length {cs rest : List Char} {value : Nat} (h : readUnit cs = .ok (value, rest)) :
    rest.length < cs.length := by
  unfold readUnit at h
  split at h
  · split at h
    · obtain ⟨_, rfl⟩ := Prod.mk.injEq .. ▸ Except.ok.inj h
      simp
      omega
    · simp at h
  · simp at h

theorem readLowHalf_length {high : Nat} {cs rest : List Char} {c : Char}
    (h : readLowHalf high cs = .ok (c, rest)) : rest.length < cs.length := by
  unfold readLowHalf at h
  split at h
  · simp at h
  · simp at h
  · split at h
    · simp at h
    next hunit =>
      have := readUnit_length hunit
      split at h
      · obtain ⟨_, rfl⟩ := Prod.mk.injEq .. ▸ Except.ok.inj h
        simp
        omega
      · simp at h
  · simp at h
  · simp at h

/-- What follows an escape is shorter than what followed its backslash. -/
theorem readEscape_length {cs rest : List Char} {c : Char} (h : readEscape cs = .ok (c, rest)) :
    rest.length < cs.length := by
  unfold readEscape at h
  split at h
  · simp at h
  · split at h
    · simp at h
    next hunit =>
      have hless := readUnit_length hunit
      split at h
      · simp at h
      · split at h
        · have := readLowHalf_length h
          simp
          omega
        · obtain ⟨_, rfl⟩ := Prod.mk.injEq .. ▸ Except.ok.inj h
          simp
          omega
  · split at h
    · obtain ⟨_, rfl⟩ := Prod.mk.injEq .. ▸ Except.ok.inj h
      simp
    · simp at h

theorem skipEscape_length {cs rest : List Char} (h : skipEscape cs = .ok rest) :
    rest.length < cs.length := by
  unfold skipEscape at h
  split at h
  · simp at h
  · split at h
    · simp at h
    next hunit =>
      have := readUnit_length hunit
      obtain rfl := Except.ok.inj h
      simp
      omega
  · split at h
    · obtain rfl := Except.ok.inj h
      simp
    · simp at h

/-- Reads a string behind its opening quote, with the characters read so far in reverse:
the string, and what follows the closing quote. -/
def readText (read : List Char) (cs : List Char) : Except Fault (String × List Char) :=
  match cs with
  | [] => .error (.atEnd .endInText)
  | '\x22' :: rest => .ok (String.ofList read.reverse, rest)
  | '\\' :: rest =>
    match h : readEscape rest with
    | .error fault => .error fault
    | .ok (c, later) =>
      have := readEscape_length h
      readText (c :: read) later
  | c :: rest =>
    if c < ' ' then .error (.atNext .control (c :: rest)) else readText (c :: read) rest
termination_by cs.length

/-- Passes over a string behind its opening quote. -/
def skipText (cs : List Char) : Except Fault (List Char) :=
  match cs with
  | [] => .error (.atEnd .endInText)
  | '\x22' :: rest => .ok rest
  | '\\' :: rest =>
    match h : skipEscape rest with
    | .error fault => .error fault
    | .ok later =>
      have := skipEscape_length h
      skipText later
  | c :: rest => if c < ' ' then .error (.before .control (c :: rest)) else skipText rest
termination_by cs.length

end ArchiveVfs.Json
