import ArchiveVfs.Deflate.Supply
import ArchiveVfs.Proofs.Deflate.Inflating

/-!
# Handing out what data decode to

Compressed data come in pieces and are decoded as far as they are there. As long as the
whole decodes without fault, a request behind which there is something left gets some of
it, whatever came before: `Supply.Serves` is kept by every request (`Supply.read_serves`).
-/

namespace ArchiveVfs.Deflate

variable {packed : Bytes}

/-- What a beginning of data decodes to, if the data are not corrupt. -/
theorem inflate_beginning {shorter longer : Bytes} (hsound : (inflate longer).fault ≠ some .corrupt)
    (hpart : shorter <+: longer) :
    (inflate shorter).bytes.toList <+: (inflate longer).bytes.toList ∧
    (inflate shorter).fault ≠ some .corrupt ∧
    ((inflate shorter).fault = none → (inflate shorter).bytes = (inflate longer).bytes) := by
  obtain ⟨more, rfl⟩ := hpart
  cases inflate_part shorter more with
  | whole hbytes hshorter =>
    rw [hbytes, hshorter]
    exact ⟨List.prefix_refl _, by simp, fun _ => rfl⟩
  | corrupt hlonger => exact absurd hlonger hsound
  | incomplete hbytes hshorter =>
    rw [hshorter]
    exact ⟨hbytes, by simp, by simp⟩

namespace Supply

/-- The supply has taken a beginning of the data and met no fault, and the pieces that are
left reach to the end of the data. -/
structure Serves (packed : Bytes) (supply : Supply) : Prop where
  taken : supply.taken <+: packed
  left : packed.length ≤ supply.taken.length + supply.left * pieceSize
  inflated : supply.inflated = inflate supply.taken
  ready : supply.ready ≤ supply.inflated.bytes.size
  fault : supply.fault = none

variable {supply : Supply} {position count : Nat}

theorem ofSize_serves {size : Nat} (hsize : packed.length ≤ size) :
    (ofSize size).Serves packed where
  taken := List.nil_prefix
  left := by
    simp only [ofSize, pieceSize, List.length_nil]
    omega
  inflated := rfl
  ready := Nat.zero_le _
  fault := rfl

/-- The piece of the data that stands at an offset. -/
def pieceOf (packed : Bytes) (offset : Nat) : Bytes :=
  (packed.drop offset).take pieceSize

theorem le_windowEnd (size : Nat) : size ≤ windowEnd size := by
  simp only [windowEnd, windowSize]
  omega

theorem Serves.taken_all (h : supply.Serves packed) (hleft : supply.left = 0) :
    supply.taken = packed := by
  have hlength := h.left
  rw [hleft] at hlength
  exact h.taken.eq_of_length_le (by omega)

/-- One more piece may be taken. -/
theorem Serves.take (hsound : (inflate packed).fault ≠ some .corrupt) (h : supply.Serves packed)
    (hleft : 0 < supply.left) :
    (supply.take (pieceOf packed supply.taken.length)).Serves packed := by
  obtain ⟨rest, hrest⟩ := h.taken
  have hpiece : pieceOf packed supply.taken.length = rest.take pieceSize := by
    rw [pieceOf, ← hrest, List.drop_left]
  have htaken : supply.taken ++ rest.take pieceSize <+: packed := by
    rw [← hrest]
    exact (List.prefix_append_right_inj _).2 (List.take_prefix _ _)
  have hgrown := (inflate_beginning (inflate_beginning hsound htaken).2.1
    (List.prefix_append supply.taken (rest.take pieceSize))).1.length_le
  have hready := h.ready
  rw [h.inflated] at hready
  rw [hpiece]
  refine ⟨htaken, ?_, rfl, ?_, h.fault⟩
  · have hlength := h.left
    have hsplit := congrArg List.length hrest
    show packed.length ≤ (supply.taken ++ rest.take pieceSize).length
      + (supply.left - 1) * pieceSize
    simp only [List.length_append, List.length_take] at hsplit ⊢
    simp only [pieceSize] at hlength ⊢
    omega
  · show supply.ready ≤ (inflate (supply.taken ++ rest.take pieceSize)).bytes.size
    simp only [Array.length_toList] at hgrown
    omega

variable (hwhole : (inflate packed).fault = none)
include hwhole

/-- Decoding what is taken keeps the supply sound. It makes something ready behind the
position, or else the data that are taken are not all. -/
theorem Serves.decode (h : supply.Serves packed)
    (hposition : position < (inflate packed).bytes.size) (hcount : 0 < count) :
    (supply.decode (position + count)).Serves packed ∧
    (supply.decode (position + count)).left = supply.left ∧
    (position < (supply.decode (position + count)).ready ∨
      ((supply.decode (position + count)).inflated.fault.isNone &&
        (supply.decode (position + count)).inflated.pause.isNone) = false) := by
  have hsound : (inflate packed).fault ≠ some .corrupt := by simp [hwhole]
  obtain ⟨hbytes, hfair, hall⟩ := inflate_beginning hsound h.taken
  rw [← h.inflated] at hbytes hfair hall
  have hend := le_windowEnd (position + count)
  rw [Supply.decode]
  by_cases hmany : windowEnd (position + count) < supply.inflated.bytes.size
  · rw [if_pos hmany]
    exact ⟨⟨h.taken, h.left, h.inflated, Nat.le_of_lt hmany, h.fault⟩, rfl, .inl (by
      show position < windowEnd (position + count)
      omega)⟩
  · rw [if_neg hmany]
    cases hpause : supply.inflated.pause with
    | some size =>
      have hwithin : size ≤ supply.inflated.bytes.size := by
        rw [h.inflated] at hpause ⊢
        exact inflate_pause _ hpause
      exact ⟨⟨h.taken, h.left, h.inflated, hwithin, h.fault⟩, rfl, .inr (by simp [hpause])⟩
    | none =>
      simp only [if_neg hfair]
      refine ⟨⟨h.taken, h.left, h.inflated, Nat.le_refl _, h.fault⟩, trivial, ?_⟩
      show position < supply.inflated.bytes.size ∨ _
      cases hfault : supply.inflated.fault with
      | none =>
        rw [hall hfault]
        exact .inl hposition
      | some fault => exact .inr (by simp)

/-- What is ready behind the position is a part of what the data decode to. -/
theorem Serves.slice (h : supply.Serves packed) (hready : position < supply.ready)
    (hcount : 0 < count) :
    supply.slice position count ≠ [] ∧
    supply.slice position count <+: ((inflate packed).bytes.toList.drop position).take count := by
  have hsound : (inflate packed).fault ≠ some .corrupt := by simp [hwhole]
  have hbytes := (inflate_beginning hsound h.taken).1
  rw [← h.inflated] at hbytes
  have hwithin := h.ready
  have hslice : supply.slice position count
      = (supply.inflated.bytes.toList.drop position).take
          (min (position + count) supply.ready - position) := by
    rw [Supply.slice, Array.toList_extract, List.extract_eq_take_drop]
  rw [hslice]
  constructor
  · apply List.ne_nil_of_length_pos
    simp only [List.length_take, List.length_drop, Array.length_toList]
    omega
  · have hcut : min (position + count) supply.ready - position ≤ count := by omega
    obtain ⟨rest, hrest⟩ := hbytes
    have hroom : position ≤ supply.inflated.bytes.toList.length := by
      simp only [Array.length_toList]
      omega
    have hfull : min (position + count) supply.ready - position
        ≤ (supply.inflated.bytes.toList.drop position).length := by
      simp only [List.length_drop, Array.length_toList]
      omega
    rw [← hrest, List.drop_append_of_le_length hroom, ← List.take_append_of_le_length hfull]
    exact List.take_prefix_take_left hcut

theorem decodeFrom_serves {left : Nat} (h : supply.Serves packed) (hleft : supply.left = left)
    (hposition : position < (inflate packed).bytes.size) (hcount : 0 < count) :
    ∃ found next, supply.decodeFrom (pieceOf packed) position count left = (.ok found, next) ∧
      next.Serves packed ∧ found ≠ [] ∧
      found <+: ((inflate packed).bytes.toList.drop position).take count := by
  have hsound : (inflate packed).fault ≠ some .corrupt := by simp [hwhole]
  induction left generalizing supply with
  | zero =>
    obtain ⟨hnext, hsame, hcases⟩ := h.decode hwhole hposition hcount
    rw [decodeFrom]
    generalize supply.decode (position + count) = decoded at hnext hsame hcases ⊢
    simp only [hnext.fault]
    by_cases hready : position < decoded.ready
    · obtain ⟨hsome, hpart⟩ := hnext.slice hwhole hready hcount
      rw [if_pos hready]
      exact ⟨_, decoded, rfl, hnext, hsome, hpart⟩
    · -- all data are taken, so they decode to the whole
      have hmore := hcases.resolve_left hready
      rw [if_neg hready, if_neg (by rw [hmore]; exact Bool.false_ne_true)]
      have hall := hnext.taken_all (by omega)
      have hinflated : decoded.inflated = inflate packed := by rw [hnext.inflated, hall]
      have hlast : decoded.decodeLast.Serves packed := by
        refine ⟨hnext.taken, hnext.left, hnext.inflated, Nat.le_refl _, ?_⟩
        show decoded.inflated.fault = none
        rw [hinflated, hwhole]
      have hthere : position < decoded.decodeLast.ready := by
        show position < decoded.inflated.bytes.size
        rw [hinflated]
        exact hposition
      obtain ⟨hsome, hpart⟩ := hlast.slice hwhole hthere hcount
      simp only [hlast.fault]
      exact ⟨_, decoded.decodeLast, rfl, hlast, hsome, hpart⟩
  | succ left ih =>
    obtain ⟨hnext, hsame, hcases⟩ := h.decode hwhole hposition hcount
    rw [decodeFrom]
    generalize supply.decode (position + count) = decoded at hnext hsame hcases ⊢
    simp only [hnext.fault]
    by_cases hready : position < decoded.ready
    · obtain ⟨hsome, hpart⟩ := hnext.slice hwhole hready hcount
      rw [if_pos hready]
      exact ⟨_, decoded, rfl, hnext, hsome, hpart⟩
    · have hmore := hcases.resolve_left hready
      rw [if_neg hready, if_neg (by rw [hmore]; exact Bool.false_ne_true)]
      exact ih (hnext.take hsound (by omega)) (by
        show decoded.left - 1 = left
        omega)

/-- A request behind which there is something gets some of it. -/
theorem read_serves (h : supply.Serves packed)
    (hposition : position < (inflate packed).bytes.size) (hcount : 0 < count) :
    ∃ found next, supply.read (pieceOf packed) position count = (.ok found, next) ∧
      next.Serves packed ∧ found ≠ [] ∧
      found <+: ((inflate packed).bytes.toList.drop position).take count := by
  rw [read, h.fault]
  dsimp only
  by_cases hready : position < supply.ready
  · rw [if_pos hready]
    obtain ⟨hsome, hpart⟩ := h.slice hwhole hready hcount
    exact ⟨_, supply, rfl, h, hsome, hpart⟩
  · rw [if_neg hready]
    exact decodeFrom_serves hwhole h rfl hposition hcount

end Supply

end ArchiveVfs.Deflate
