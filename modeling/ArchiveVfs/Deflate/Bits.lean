import ArchiveVfs.Bytes

/-!
# Bit sequences

Compressed data are read bit by bit, the lowest bit of each byte first. A number
of several bits has its lowest bit first.
-/

namespace ArchiveVfs.Deflate

/-- A sequence of bits. -/
abbrev Bits := List Bool

namespace Bits

/-- The bits of a byte, put in front of others. -/
def ofByte (b : UInt8) (rest : Bits) : Bits :=
  b.toNat.testBit 0 :: b.toNat.testBit 1 :: b.toNat.testBit 2 :: b.toNat.testBit 3
    :: b.toNat.testBit 4 :: b.toNat.testBit 5 :: b.toNat.testBit 6 :: b.toNat.testBit 7 :: rest

/-- The bits of a byte string. -/
def ofBytes (data : Bytes) : Bits :=
  data.reverse.foldl (fun rest b => ofByte b rest) []

/-- A number of `width` bits, and the bits behind it. -/
def takeNat : (width : Nat) → Bits → Option (Nat × Bits)
  | 0, bits => some (0, bits)
  | _ + 1, [] => none
  | width + 1, b :: bits =>
    (takeNat width bits).map fun parts => (b.toNat + 2 * parts.1, parts.2)

/-- Whether no whole byte is left. -/
def isSpent (bits : Bits) : Bool :=
  (bits.drop 7).isEmpty

/-- The bits from the next byte on. -/
def align (bits : Bits) : Bits :=
  bits.drop (bits.length % 8)

theorem takeNat_length {width value : Nat} {bits rest : Bits}
    (h : takeNat width bits = some (value, rest)) : rest.length + width = bits.length := by
  induction width generalizing bits value with
  | zero => simp_all [takeNat]
  | succ width ih =>
    cases bits with
    | nil => simp [takeNat] at h
    | cons b bits =>
      obtain ⟨parts, hparts, heq⟩ := Option.map_eq_some_iff.1 h
      obtain ⟨_, rfl⟩ := Prod.mk.injEq .. ▸ heq
      have := ih hparts
      simp
      omega

end Bits

end ArchiveVfs.Deflate
