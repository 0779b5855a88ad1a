import ArchiveVfs.Deflate.Huffman

/-!
# Reading numbers and symbols

What compressed data say is read off their bits: numbers of some width, and the
words of a code. Bits that end too early are incomplete; a word without a symbol
is corrupt.
-/

namespace ArchiveVfs.Deflate

/-- Why compressed data cannot be decoded to their end. -/
inductive Fault where
  /-- The data end before the last block does. -/
  | incomplete
  /-- The data break the rules. -/
  | corrupt
  deriving DecidableEq, Repr

/-- A number of `width` bits; without them the data are incomplete. -/
def number (width : Nat) (bits : Bits) : Except Fault (Nat × Bits) :=
  match bits.takeNat width with
  | some parts => .ok parts
  | none => .error .incomplete

/-- The symbol of the next word. -/
def symbol (code : Code) (bits : Bits) : Except Fault (Nat × Bits) :=
  match code.decode bits with
  | .symbol value rest => .ok (value, rest)
  | .cut => .error .incomplete
  | .unassigned => .error .corrupt

theorem number_length {width value : Nat} {bits rest : Bits}
    (h : number width bits = .ok (value, rest)) : rest.length + width = bits.length := by
  unfold number at h
  split at h
  next parts hparts =>
    obtain rfl := Except.ok.inj h
    exact Bits.takeNat_length hparts
  · simp at h

theorem symbol_length {code : Code} {bits rest : Bits} {value : Nat}
    (h : symbol code bits = .ok (value, rest)) : rest.length < bits.length := by
  unfold symbol at h
  split at h
  next hdecode =>
    obtain ⟨rfl, rfl⟩ := Prod.mk.injEq .. ▸ Except.ok.inj h
    exact Code.decode_length hdecode
  · simp at h
  · simp at h

end ArchiveVfs.Deflate
