import ArchiveVfs.Error

/-!
# Targets of seeks

A seek moves to a place between the start and the end of a stream, both included.
-/

namespace ArchiveVfs

/-- The greatest target that an error reports. -/
def maxSeekTarget : Int := 9223372036854775807

/-- The place that an origin stands for. -/
def Origin.base (origin : Origin) (position size : Nat) : Nat :=
  match origin with
  | .start => 0
  | .here => position
  | .finish => size

/-- The place that an offset from an origin names. -/
def Origin.target (origin : Origin) (position size : Nat) (offset : Int) : Int :=
  origin.base position size + offset

/-- The target of a seek, if it lies within the stream. -/
def seekTarget (position size : Nat) (offset : Int) (origin : Origin) : Except Error Nat :=
  if 0 ≤ origin.target position size offset ∧ origin.target position size offset ≤ size then
    .ok (origin.target position size offset).toNat
  else .error (.seekOutOfRange (min (origin.target position size offset) maxSeekTarget) size)

/-- A target found lies within the stream. -/
theorem seekTarget_le {position size target : Nat} {offset : Int} {origin : Origin}
    (h : seekTarget position size offset origin = .ok target) : target ≤ size := by
  unfold seekTarget at h
  split at h
  · obtain rfl := Except.ok.inj h
    omega
  · simp at h

end ArchiveVfs
