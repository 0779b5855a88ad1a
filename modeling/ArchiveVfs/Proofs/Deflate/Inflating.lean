import ArchiveVfs.Proofs.Deflate.Reading

/-!
# Inflating when more data follow

Decoding only ever puts bytes behind its output (`Output.Grows`), so what a part of the
data decodes to is there at the beginning of what all of the data decode to. Of data that
decode without fault no beginning is corrupt, and a beginning that decodes without fault
decodes to the whole: `inflate_part`.
-/

namespace ArchiveVfs.Deflate

/-! ## Growing output -/

/-- The later output has come from the earlier one byte by byte. -/
inductive Output.Grows (output : Output) : Output → Prop where
  | refl : Output.Grows output output
  | push {later : Output} (h : Output.Grows output later) (isSpent : Bool) (b : UInt8) :
      Output.Grows output (later.push isSpent b)

/-- Where decoding pauses: at the end of a window, with no full window behind it. -/
def Output.Paused (output : Output) : Prop :=
  ∀ size, output.pause = some size →
    size ≤ output.bytes.size ∧ size % windowSize = 0 ∧ output.bytes.size ≤ size + windowSize

namespace Output.Grows

variable {output later last : Output}

theorem trans (h : output.Grows later) (hnext : later.Grows last) : output.Grows last := by
  induction hnext with
  | refl => exact h
  | push _ isSpent b ih => exact ih.push isSpent b

/-- The bytes that were there stay in front. -/
theorem bytes (h : output.Grows later) : output.bytes.toList <+: later.bytes.toList := by
  induction h with
  | refl => exact List.prefix_refl _
  | push _ isSpent b ih =>
    rw [Output.push, Array.toList_push]
    exact ih.trans (List.prefix_append _ _)

/-- Decoding pauses at the end of a window, and the next one is not full. -/
theorem pause (h : output.Grows later) (hpause : output.Paused) : later.Paused := by
  induction h with
  | refl => exact hpause
  | @push later _ isSpent b ih =>
    intro size hsize
    have hmore : (later.push isSpent b).bytes.size = later.bytes.size + 1 := Array.size_push b
    rw [hmore]
    by_cases hfull : 0 < later.bytes.size ∧ later.bytes.size % windowSize = 0
    · cases isSpent with
      | false => simp [Output.push, hfull] at hsize
      | true =>
        obtain rfl : later.bytes.size = size := by simpa [Output.push, hfull] using hsize
        exact ⟨by omega, hfull.2, by simp [windowSize]⟩
    · have hkept : later.pause = some size := by simpa [Output.push, hfull] using hsize
      obtain ⟨hwithin, hend, hnext⟩ := ih size hkept
      simp only [windowSize] at hfull hend hnext ⊢
      omega

end Output.Grows

theorem copyBack_grows (distance : Nat) (isSpent : Bool) (length : Nat) (output : Output) :
    output.Grows (output.copyBack distance isSpent length) := by
  induction length generalizing output with
  | zero => exact .refl
  | succ length ih => exact (Output.Grows.refl.push isSpent _).trans (ih _)

theorem expand_grows (literals distances : Code) (bits : Bits) (output : Output) :
    output.Grows (expand literals distances bits output).1 := by
  fun_induction expand literals distances bits output
  case case1 => exact .refl
  case case2 => exact .refl
  case case3 output b rest _ _ ih => exact (Output.Grows.refl.push rest.isSpent b).trans ih
  case case4 output length distance rest _ _ ih =>
    exact (copyBack_grows distance rest.isSpent length output).trans ih

theorem storeBytes_grows (count : Nat) (bits : Bits) (output : Output) :
    output.Grows (storeBytes count bits output).1 := by
  induction count generalizing bits output with
  | zero => exact .refl
  | succ count ih =>
    rw [storeBytes]
    rcases bits.takeNat 8 with _ | ⟨value, rest⟩
    · exact .refl
    · exact (Output.Grows.refl.push false _).trans (ih rest _)

theorem block_grows (kind : Nat) (bits : Bits) (output : Output) :
    output.Grows (block kind bits output).1 := by
  rw [block]
  split
  · split
    · exact .refl
    · exact storeBytes_grows _ _ output
  · split
    · exact expand_grows _ _ bits output
    · split
      · split
        · exact .refl
        · exact expand_grows _ _ _ output
      · exact .refl

/-- What follows a block: nothing after a fault or behind the last block, else more blocks. -/
theorem behindBlock_grows {blocks : Nat}
    (hblocks : ∀ bits output, Output.Grows output (blocksFrom blocks bits output).toOutput)
    (header : Nat) (outcome : Output × Except Fault Bits) :
    outcome.1.Grows (match outcome with
      | (output, .error fault) => ({ output with fault := some fault } : Inflated)
      | (output, .ok rest) =>
        if header % 2 = 1 then { output with } else blocksFrom blocks rest output).toOutput := by
  obtain ⟨output, fault | rest⟩ := outcome
  · exact .refl
  · dsimp only
    by_cases hlast : header % 2 = 1
    · rw [if_pos hlast]
      exact .refl
    · rw [if_neg hlast]
      exact hblocks rest output

theorem blocksFrom_grows (blocks : Nat) (bits : Bits) (output : Output) :
    output.Grows (blocksFrom blocks bits output).toOutput := by
  induction blocks generalizing bits output with
  | zero => exact .refl
  | succ blocks ih =>
    rw [blocksFrom]
    rcases number 3 bits with fault | ⟨header, rest⟩
    · exact .refl
    · exact (block_grows (header / 2) rest output).trans (behindBlock_grows ih header _)

/-! ## More bits behind -/

/-- What decoding some bits leaves, and what decoding more of them leaves. -/
inductive Resumes (more : Bits) :
    Output × Except Fault Bits → Output × Except Fault Bits → Prop where
  | ok {first second : Output} (hbytes : first.bytes = second.bytes) (rest : Bits) :
      Resumes more (first, .ok rest) (second, .ok (rest ++ more))
  | corrupt {first second : Output} (hbytes : first.bytes = second.bytes) :
      Resumes more (first, .error .corrupt) (second, .error .corrupt)
  | incomplete {first : Output} {longer : Output × Except Fault Bits}
      (hpart : first.bytes.toList <+: longer.1.bytes.toList) :
      Resumes more (first, .error .incomplete) longer

variable {first second : Output}

theorem push_bytes (hbytes : first.bytes = second.bytes) (spent isSpent : Bool) (b : UInt8) :
    (first.push spent b).bytes = (second.push isSpent b).bytes := by
  rw [Output.push, Output.push, hbytes]

theorem copyBack_bytes (hbytes : first.bytes = second.bytes) (distance : Nat)
    (spent isSpent : Bool) (length : Nat) :
    (first.copyBack distance spent length).bytes
      = (second.copyBack distance isSpent length).bytes := by
  induction length generalizing first second with
  | zero => exact hbytes
  | succ length ih =>
    have hback : first.back distance = second.back distance := by
      rw [Output.back, Output.back, hbytes]
    rw [Output.copyBack, Output.copyBack, hback]
    exact ih (push_bytes hbytes _ _ _)

theorem expand_eq (literals distances : Code) (bits : Bits) (output : Output) :
    expand literals distances bits output =
      match item literals distances bits with
      | .error fault => (output, .error fault)
      | .ok (.stop, rest) => (output, .ok rest)
      | .ok (.literal b, rest) =>
        expand literals distances rest (output.push rest.isSpent b)
      | .ok (.copy length distance, rest) =>
        expand literals distances rest (output.copyBack distance rest.isSpent length) := by
  rw [expand]
  split <;> simp_all

theorem expand_append (literals distances : Code) (bits more : Bits)
    (hbytes : first.bytes = second.bytes) :
    Resumes more (expand literals distances bits first)
      (expand literals distances (bits ++ more) second) := by
  fun_induction expand literals distances bits first generalizing second
  case case1 bits first fault hitem =>
    have hlong := item_append literals distances bits more
    rw [hitem] at hlong
    cases fault with
    | incomplete =>
      refine .incomplete ?_
      rw [hbytes]
      exact (expand_grows _ _ _ second).bytes
    | corrupt =>
      rw [expand_eq, hlong.eq_corrupt]
      exact .corrupt hbytes
  case case2 bits first rest hitem =>
    have hlong := item_append literals distances bits more
    rw [hitem] at hlong
    rw [expand_eq, hlong.eq_ok]
    exact .ok hbytes rest
  case case3 bits first b rest hitem _ ih =>
    have hlong := item_append literals distances bits more
    rw [hitem] at hlong
    rw [expand_eq literals distances (bits ++ more), hlong.eq_ok]
    exact ih (push_bytes hbytes _ _ b)
  case case4 bits first length distance rest hitem _ ih =>
    have hlong := item_append literals distances bits more
    rw [hitem] at hlong
    rw [expand_eq literals distances (bits ++ more), hlong.eq_ok]
    exact ih (copyBack_bytes hbytes distance _ _ length)

theorem storeBytes_append (count : Nat) (bits more : Bits) (hbytes : first.bytes = second.bytes) :
    Resumes more (storeBytes count bits first) (storeBytes count (bits ++ more) second) := by
  induction count generalizing bits first second with
  | zero => exact .ok hbytes bits
  | succ count ih =>
    cases htake : bits.takeNat 8 with
    | none =>
      rw [storeBytes, htake]
      refine .incomplete ?_
      rw [hbytes]
      exact (storeBytes_grows _ _ second).bytes
    | some parts =>
      obtain ⟨value, rest⟩ := parts
      rw [storeBytes, storeBytes, htake, takeNat_append htake]
      exact ih rest (push_bytes hbytes _ _ _)

theorem Resumes.start {more : Bits} {longer : Output × Except Fault Bits}
    (hbytes : first.bytes = second.bytes) (hgrows : second.Grows longer.1) :
    Resumes more (first, .error .incomplete) longer := by
  refine .incomplete ?_
  rw [hbytes]
  exact hgrows.bytes

theorem block_append (kind : Nat) (bits : Bits) {more : Bits} (hwhole : 8 ∣ more.length)
    (hbytes : first.bytes = second.bytes) :
    Resumes more (block kind bits first) (block kind (bits ++ more) second) := by
  rw [block, block]
  by_cases hstored : kind = 0
  · simp only [if_pos hstored]
    refine (storedLength_append bits hwhole).elim ?_ (.corrupt hbytes) ?_
    · intro length rest
      exact storeBytes_append length rest more hbytes
    · rintro (fault | ⟨length, rest⟩)
      · exact .start hbytes .refl
      · exact .start hbytes (storeBytes_grows length rest second)
  · by_cases hfixed : kind = 1
    · simp only [if_neg hstored, if_pos hfixed]
      exact expand_append _ _ bits more hbytes
    · by_cases hown : kind = 2
      · simp only [if_neg hstored, if_neg hfixed, if_pos hown]
        refine (ownCodes_append bits more).elim ?_ (.corrupt hbytes) ?_
        · intro codes rest
          exact expand_append codes.1 codes.2 rest more hbytes
        · rintro (fault | ⟨codes, rest⟩)
          · exact .start hbytes .refl
          · exact .start hbytes (expand_grows codes.1 codes.2 rest second)
      · simp only [if_neg hstored, if_neg hfixed, if_neg hown]
        exact .corrupt hbytes

/-- What is decoded of a part of the data, and what is decoded of more of them. -/
inductive Part : Inflated → Inflated → Prop where
  | whole {shorter longer : Inflated} (hbytes : shorter.bytes = longer.bytes)
      (hshorter : shorter.fault = none) (hlonger : longer.fault = none) : Part shorter longer
  | corrupt {shorter longer : Inflated} (hlonger : longer.fault = some .corrupt) :
      Part shorter longer
  | incomplete {shorter longer : Inflated}
      (hbytes : shorter.bytes.toList <+: longer.bytes.toList)
      (hshorter : shorter.fault = some .incomplete) : Part shorter longer

theorem blocksFrom_append {few many : Nat} (hfew : few ≤ many) (bits : Bits) {more : Bits}
    (hwhole : 8 ∣ more.length) (hbytes : first.bytes = second.bytes) :
    Part (blocksFrom few bits first) (blocksFrom many (bits ++ more) second) := by
  induction few generalizing many bits first second with
  | zero =>
    refine .incomplete ?_ rfl
    show first.bytes.toList <+: _
    rw [hbytes]
    exact (blocksFrom_grows many (bits ++ more) second).bytes
  | succ few ih =>
    obtain ⟨many, rfl⟩ : ∃ fewer, many = fewer + 1 := ⟨many - 1, by omega⟩
    have hbehind := behindBlock_grows (blocksFrom_grows many)
    rw [blocksFrom, blocksFrom]
    refine (number_append 3 bits more).elim ?_ (.corrupt rfl) ?_
    · intro header rest
      dsimp only
      -- the block is decoded alike, and then the blocks behind it are
      have hblock := block_append (header / 2) rest hwhole hbytes
      generalize block (header / 2) rest first = shorter at hblock ⊢
      generalize block (header / 2) (rest ++ more) second = longer at hblock ⊢
      cases hblock with
      | ok hbytes rest =>
        dsimp only
        by_cases hlast : header % 2 = 1
        · simp only [if_pos hlast]
          exact .whole hbytes rfl rfl
        · simp only [if_neg hlast]
          exact ih (by omega) rest hbytes
      | corrupt => exact .corrupt rfl
      | incomplete hpart => exact .incomplete (hpart.trans (hbehind header longer).bytes) rfl
    · rintro (fault | ⟨header, rest⟩)
      · refine .incomplete ?_ rfl
        show first.bytes.toList <+: second.bytes.toList
        exact hbytes ▸ List.prefix_refl _
      · refine .incomplete ?_ rfl
        show first.bytes.toList <+: _
        rw [hbytes]
        exact ((block_grows (header / 2) rest second).trans (hbehind header _)).bytes

theorem ofBytes_cons (b : UInt8) (data : Bytes) :
    Bits.ofBytes (b :: data) = Bits.ofByte b (Bits.ofBytes data) := by
  simp [Bits.ofBytes]

theorem ofBytes_append (data more : Bytes) :
    Bits.ofBytes (data ++ more) = Bits.ofBytes data ++ Bits.ofBytes more := by
  induction data with
  | nil => rfl
  | cons b data ih =>
    rw [List.cons_append, ofBytes_cons, ih, ofBytes_cons]
    rfl

theorem length_ofBytes (data : Bytes) : (Bits.ofBytes data).length = 8 * data.length := by
  induction data with
  | nil => rfl
  | cons b data ih =>
    rw [ofBytes_cons, Bits.ofByte]
    simp only [List.length_cons, ih]
    omega

/-- A beginning of data is decoded to a beginning of what they are decoded to, and to the
whole if that goes without a fault. If the beginning is corrupt, so are the data. -/
theorem inflate_part (data more : Bytes) : Part (inflate data) (inflate (data ++ more)) := by
  have hwhole : 8 ∣ (Bits.ofBytes more).length := by
    rw [length_ofBytes]
    exact Nat.dvd_mul_right 8 _
  have hfew : 8 * data.length + 1 ≤ 8 * (data ++ more).length + 1 := by
    simp only [List.length_append]
    omega
  rw [inflate, inflate, ofBytes_append]
  exact blocksFrom_append hfew (Bits.ofBytes data) hwhole rfl

theorem inflate_paused (data : Bytes) : (inflate data).Paused :=
  (blocksFrom_grows _ _ {}).pause (by simp [Output.Paused])

theorem inflate_pause (data : Bytes) {size : Nat} (h : (inflate data).pause = some size) :
    size ≤ (inflate data).bytes.size :=
  (inflate_paused data size h).1

end ArchiveVfs.Deflate
