import ArchiveVfs.Deflate.Reading

/-!
# Codes of a block

A block uses the fixed codes or brings its own. The lengths of the words of its own
codes are written as runs, under a code whose lengths stand before them.
-/

namespace ArchiveVfs.Deflate

/-- The codes of blocks that bring none. -/
def fixedCodes : Code × Code :=
  (Code.ofLengths (List.replicate 144 8 ++ List.replicate 112 9 ++ List.replicate 24 7
      ++ List.replicate 8 8),
    Code.ofLengths (List.replicate 32 5))

/-- The order in which the lengths of the first code are written. -/
def lengthOrder : List Nat :=
  [16, 17, 18, 0, 8, 7, 9, 6, 10, 5, 11, 4, 12, 3, 13, 2, 14, 1, 15]

/-- Reads `count` numbers of three bits. -/
def shortNumbers : (count : Nat) → Bits → Except Fault (List Nat × Bits)
  | 0, bits => .ok ([], bits)
  | count + 1, bits =>
    match number 3 bits with
    | .error fault => .error fault
    | .ok (value, rest) =>
      match shortNumbers count rest with
      | .error fault => .error fault
      | .ok (values, rest) => .ok (value :: values, rest)

/-- Lengths by symbol, from those written in `lengthOrder`. -/
def inOrder (written : List Nat) : List Nat :=
  (List.range 19).map fun symbol =>
    ((lengthOrder.zip written).find? fun pair => pair.1 = symbol).elim 0 (·.2)

/-- A run in the written lengths: the length repeated and how often. -/
def lengthRun (code : Code) (last : Option Nat) (bits : Bits) :
    Except Fault (Nat × Nat × Bits) :=
  match symbol code bits with
  | .error fault => .error fault
  | .ok (value, rest) =>
    if value < 16 then .ok (value, 1, rest)
    else
      let (repeated, least, width) : Option Nat × Nat × Nat :=
        if value = 16 then (last, 3, 2) else if value = 17 then (some 0, 3, 3) else (some 0, 11, 7)
      match repeated with
      | none => .error .corrupt
      | some length =>
        match number width rest with
        | .error fault => .error fault
        | .ok (more, rest) => .ok (length, least + more, rest)

theorem lengthRun_length {code : Code} {last : Option Nat} {bits rest : Bits} {length count : Nat}
    (h : lengthRun code last bits = .ok (length, count, rest)) :
    rest.length < bits.length := by
  unfold lengthRun at h
  split at h
  · simp at h
  next hsymbol =>
    have hless := symbol_length hsymbol
    split at h
    · simp_all
    · dsimp only at h
      split at h
      · simp at h
      · split at h
        · simp at h
        next hnumber =>
          have := number_length hnumber
          simp only [Except.ok.injEq, Prod.mk.injEq] at h
          obtain ⟨_, _, rfl⟩ := h
          omega

/-- Reads lengths until there are `count`; those read so far are in reverse. -/
def codeLengths (code : Code) (count : Nat) (read : List Nat) (bits : Bits) :
    Except Fault (List Nat × Bits) :=
  if count ≤ read.length then
    if read.length = count then .ok (read.reverse, bits) else .error .corrupt
  else
    match h : lengthRun code read.head? bits with
    | .error fault => .error fault
    | .ok (length, more, rest) =>
      have := lengthRun_length h
      codeLengths code count (List.replicate more length ++ read) rest
termination_by bits.length

/-- Whether lengths give a code that a block may use: complete, or with no word but one
of a single bit. -/
def isUsable (lengths : List Nat) : Bool :=
  Code.isComplete lengths || lengths.all (· = 0) || lengths.filter (0 < ·) = [1]

/-- The codes that a block brings. -/
def ownCodes (bits : Bits) : Except Fault ((Code × Code) × Bits) := do
  let (literalCount, bits) ← number 5 bits
  let (distanceCount, bits) ← number 5 bits
  let (shortCount, bits) ← number 4 bits
  if 29 < literalCount || 29 < distanceCount then throw .corrupt
  let (written, bits) ← shortNumbers (shortCount + 4) bits
  unless Code.isComplete (inOrder written) do throw .corrupt
  let code := Code.ofLengths (inOrder written)
  let (lengths, bits) ← codeLengths code (literalCount + 257 + (distanceCount + 1)) [] bits
  let literals := lengths.take (literalCount + 257)
  let distances := lengths.drop (literalCount + 257)
  unless isUsable literals && isUsable distances do throw .corrupt
  return ((Code.ofLengths literals, Code.ofLengths distances), bits)

end ArchiveVfs.Deflate
