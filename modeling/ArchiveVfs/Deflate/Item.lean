import ArchiveVfs.Deflate.Reading

/-!
# Elements of a block

A block is a row of literals and copies. A copy has a length and a distance, each
given by a class and further bits.
-/

namespace ArchiveVfs.Deflate

/-- The shortest length and the number of further bits for a length symbol, counted
from 257. -/
def lengthClasses : Array (Nat × Nat) :=
  #[(3, 0), (4, 0), (5, 0), (6, 0), (7, 0), (8, 0), (9, 0), (10, 0),
    (11, 1), (13, 1), (15, 1), (17, 1), (19, 2), (23, 2), (27, 2), (31, 2),
    (35, 3), (43, 3), (51, 3), (59, 3), (67, 4), (83, 4), (99, 4), (115, 4),
    (131, 5), (163, 5), (195, 5), (227, 5), (258, 0)]

/-- The shortest distance and the number of further bits for a distance symbol. -/
def distanceClasses : Array (Nat × Nat) :=
  #[(1, 0), (2, 0), (3, 0), (4, 0), (5, 1), (7, 1), (9, 2), (13, 2), (17, 3), (25, 3),
    (33, 4), (49, 4), (65, 5), (97, 5), (129, 6), (193, 6), (257, 7), (385, 7), (513, 8),
    (769, 8), (1025, 9), (1537, 9), (2049, 10), (3073, 10), (4097, 11), (6145, 11),
    (8193, 12), (12289, 12), (16385, 13), (24577, 13)]

/-- An element of a block. -/
inductive Item where
  /-- A byte. -/
  | literal (b : UInt8)
  /-- A run of earlier output. -/
  | copy (length distance : Nat)
  /-- The end of the block. -/
  | stop
  deriving DecidableEq, Repr

/-- The value that a class and its further bits give. -/
def classValue (classes : Array (Nat × Nat)) (index : Nat) (bits : Bits) :
    Except Fault (Nat × Bits) :=
  match classes[index]? with
  | none => .error .corrupt
  | some (least, width) =>
    match number width bits with
    | .ok (value, rest) => .ok (least + value, rest)
    | .error fault => .error fault

theorem classValue_length {classes : Array (Nat × Nat)} {index value : Nat} {bits rest : Bits}
    (h : classValue classes index bits = .ok (value, rest)) : rest.length ≤ bits.length := by
  unfold classValue at h
  split at h
  · simp at h
  · split at h
    next hnumber =>
      obtain ⟨rfl, rfl⟩ := Prod.mk.injEq .. ▸ Except.ok.inj h
      have := number_length hnumber
      omega
    · simp at h

/-- The distance of a copy. -/
def distance (distances : Code) (bits : Bits) : Except Fault (Nat × Bits) :=
  match symbol distances bits with
  | .ok (value, rest) => classValue distanceClasses value rest
  | .error fault => .error fault

/-- The next element of a block. -/
def item (literals distances : Code) (bits : Bits) : Except Fault (Item × Bits) :=
  match symbol literals bits with
  | .error fault => .error fault
  | .ok (value, rest) =>
    if value < 256 then .ok (.literal (UInt8.ofNat value), rest)
    else if value = 256 then .ok (.stop, rest)
    else
      match classValue lengthClasses (value - 257) rest with
      | .error fault => .error fault
      | .ok (length, rest) =>
        match distance distances rest with
        | .error fault => .error fault
        | .ok (distance, rest) => .ok (.copy length distance, rest)

theorem distance_length {distances : Code} {bits rest : Bits} {value : Nat}
    (h : distance distances bits = .ok (value, rest)) : rest.length ≤ bits.length := by
  unfold distance at h
  split at h
  next hsymbol =>
    have h1 := symbol_length hsymbol
    have h2 := classValue_length h
    omega
  · simp at h

/-- An element read leaves fewer bits. -/
theorem item_length {literals distances : Code} {bits rest : Bits} {found : Item}
    (h : item literals distances bits = .ok (found, rest)) : rest.length < bits.length := by
  unfold item at h
  split at h
  · simp at h
  next hsymbol =>
    have hless := symbol_length hsymbol
    split at h
    · simp_all
    · split at h
      · simp_all
      · split at h
        · simp at h
        next hlength =>
          have h1 := classValue_length hlength
          split at h
          · simp at h
          next hdistance =>
            have h2 := distance_length hdistance
            obtain ⟨_, rfl⟩ := Prod.mk.injEq .. ▸ Except.ok.inj h
            omega

end ArchiveVfs.Deflate
