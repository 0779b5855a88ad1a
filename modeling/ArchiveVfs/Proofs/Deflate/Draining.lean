import ArchiveVfs.Proofs.Deflate.Supplying

/-!
# Asking for less than everything

To drain a source is to ask again and again for all that is missing up to some end. Where
that succeeds, and one smaller request in front of it succeeded too, draining from where
that request began hands out the same bytes: `Supply.drains_behind`. This needs nothing of
the compressed data, which may be incomplete or corrupt: what is ready is handed out before
anything else is decoded, and how far a round decodes depends on the request only in that a
greater request may bring more windows at once.
-/

namespace ArchiveVfs

/-- Asking for all that is missing up to `finish` hands out these bytes, answer by answer. -/
inductive Drains {σ ε : Type} (fetch : σ → Nat → Nat → Except ε Bytes × σ) (finish : Nat) :
    (position : Nat) → σ → Bytes → Prop where
  | done (source : σ) : Drains fetch finish finish source []
  | more {position : Nat} {source next : σ} {found rest : Bytes} (hposition : position < finish)
      (hfetch : fetch source position (finish - position) = (.ok found, next))
      (hsome : found ≠ []) (hrest : Drains fetch finish (position + found.length) next rest) :
      Drains fetch finish position source (found ++ rest)

namespace Drains

variable {σ ε : Type} {fetch : σ → Nat → Nat → Except ε Bytes × σ} {finish position : Nat}
  {source : σ} {bytes : Bytes}

theorem length (h : Drains fetch finish position source bytes) :
    position + bytes.length = finish := by
  induction h with
  | done => rfl
  | more _ _ _ _ ih =>
    rw [List.length_append]
    omega

theorem eq_nil (h : Drains fetch finish finish source bytes) : bytes = [] := by
  have := h.length
  exact List.eq_nil_of_length_eq_zero (by omega)

/-- Before the end, there is a first answer. -/
theorem first (h : Drains fetch finish position source bytes) (hposition : position < finish) :
    ∃ found next rest, fetch source position (finish - position) = (.ok found, next) ∧
      found ≠ [] ∧ Drains fetch finish (position + found.length) next rest ∧
      bytes = found ++ rest := by
  cases h with
  | done => omega
  | more _ hfetch hsome hrest => exact ⟨_, _, _, hfetch, hsome, hrest, rfl⟩

end Drains

namespace Deflate.Supply

variable {piece : (offset : Nat) → Bytes} {supply decoded next : Supply}
  {position middle count finish left : Nat} {found rest bytes : Bytes}

/-- Draining a supply. -/
abbrev Drained (piece : (offset : Nat) → Bytes) (finish position : Nat) (supply : Supply)
    (bytes : Bytes) : Prop :=
  Drains (fun supply position count => read supply piece position count) finish position supply
    bytes

/-- The decoded bytes between two places. -/
def part (supply : Supply) (start stop : Nat) : Bytes :=
  (supply.inflated.bytes.extract start stop).toList

theorem length_part (position : Nat) (hstop : middle ≤ supply.inflated.bytes.size) :
    (supply.part position middle).length = middle - position := by
  simp only [part, Array.length_toList, Array.size_extract]
  omega

theorem part_append {stop : Nat} (hfirst : position ≤ middle) (hsecond : middle ≤ stop) :
    supply.part position middle ++ supply.part middle stop = supply.part position stop := by
  rw [part, part, part, ← Array.toList_append, Array.extract_append_extract,
    Nat.min_eq_left hfirst, Nat.max_eq_right hsecond]

/-- No fault has been met, and what is ready has been decoded. -/
structure Steady (supply : Supply) : Prop where
  ready : supply.ready ≤ supply.inflated.bytes.size
  fault : supply.fault = none

/-- Reading what is ready. -/
theorem read_ready (piece : (offset : Nat) → Bytes) (h : supply.Steady)
    (hposition : position < supply.ready) (count : Nat) :
    supply.read piece position count
      = (.ok (supply.part position (min (position + count) supply.ready)), supply) := by
  rw [read, h.fault]
  dsimp only
  rw [if_pos hposition]
  rfl

/-- What is ready comes before all else that is drained. -/
theorem drained_of_ready (h : supply.Steady) (hmiddle : position ≤ middle)
    (hready : middle ≤ supply.ready) (hfinish : middle ≤ finish)
    (hdrained : Drained piece finish middle supply rest) :
    Drained piece finish position supply (supply.part position middle ++ rest) := by
  have hinside := h.ready
  by_cases hsame : position = middle
  · subst hsame
    have hnone : supply.part position position = [] :=
      List.eq_nil_of_length_eq_zero (by rw [length_part _ (by omega)]; omega)
    rw [hnone]
    exact hdrained
  · -- the first answer is all that is ready, so it comes past the middle
    have hread := read_ready piece h (show position < supply.ready by omega)
      (finish - position)
    rw [show position + (finish - position) = finish by omega] at hread
    have hlength : (supply.part position (min finish supply.ready)).length
        = min finish supply.ready - position := length_part _ (by omega)
    have hsome : supply.part position (min finish supply.ready) ≠ [] := by
      apply List.ne_nil_of_length_pos
      omega
    have hend : position + (supply.part position (min finish supply.ready)).length
        = min finish supply.ready := by omega
    by_cases hlast : middle = min finish supply.ready
    · rw [hlast] at hdrained ⊢
      rw [← hend] at hdrained
      exact .more (by omega) hread hsome hdrained
    · obtain ⟨found, next, behind, hfetch, _, hbehind, rfl⟩ := hdrained.first (by omega)
      rw [read_ready piece h (by omega),
        show middle + (finish - middle) = finish by omega] at hfetch
      obtain ⟨hfound, rfl⟩ := Prod.mk.inj hfetch
      obtain rfl := Except.ok.inj hfound
      rw [← List.append_assoc, part_append hmiddle (by omega)]
      refine .more (by omega) hread hsome ?_
      rw [hend]
      rw [length_part _ (by omega), show middle + (min finish supply.ready - middle)
        = min finish supply.ready by omega] at hbehind
      exact hbehind

/-- What is drained begins with what is ready. -/
theorem Drained.behind_ready (h : supply.Steady) (hmiddle : position ≤ middle)
    (hready : middle ≤ supply.ready) (hfinish : middle ≤ finish)
    (hdrained : Drained piece finish position supply bytes) :
    ∃ rest, bytes = supply.part position middle ++ rest ∧
      Drained piece finish middle supply rest := by
  have hinside := h.ready
  by_cases hsame : position = middle
  · subst hsame
    have hnone : supply.part position position = [] :=
      List.eq_nil_of_length_eq_zero (by rw [length_part _ (by omega)]; omega)
    exact ⟨bytes, by rw [hnone, List.nil_append], hdrained⟩
  · obtain ⟨found, next, behind, hfetch, _, hbehind, rfl⟩ := hdrained.first (by omega)
    rw [read_ready piece h (by omega),
      show position + (finish - position) = finish by omega] at hfetch
    obtain ⟨hfound, rfl⟩ := Prod.mk.inj hfetch
    obtain rfl := Except.ok.inj hfound
    rw [length_part _ (by omega), show position + (min finish supply.ready - position)
      = min finish supply.ready by omega] at hbehind
    refine ⟨supply.part middle (min finish supply.ready) ++ behind, ?_, ?_⟩
    · rw [← List.append_assoc, part_append hmiddle (by omega)]
    · exact drained_of_ready h (by omega) (by omega) (by omega) hbehind

/-! ## Decoding for a greater request -/

/-- What is decoded are the bytes taken, and what is ready has been decoded, unless a fault has
been met. -/
structure Honest (supply : Supply) : Prop where
  inflated : supply.inflated = inflate supply.taken
  ready : supply.fault = none → supply.ready ≤ supply.inflated.bytes.size

theorem windowEnd_mod (size : Nat) : windowEnd size % windowSize = 0 := by
  simp only [windowEnd, windowSize]
  omega

theorem windowEnd_least {size stop : Nat} (hsize : size ≤ stop) (hstop : stop % windowSize = 0) :
    windowEnd size ≤ stop := by
  simp only [windowEnd, windowSize] at *
  omega

/-- All that decoding can do. -/
theorem decode_cases (supply : Supply) (target : Nat) :
    (windowEnd target < supply.inflated.bytes.size ∧
      supply.decode target = { supply with ready := windowEnd target }) ∨
    (supply.inflated.bytes.size ≤ windowEnd target ∧
      ((∃ size, supply.inflated.pause = some size ∧
          supply.decode target = { supply with ready := size }) ∨
        (supply.inflated.pause = none ∧ supply.inflated.fault = some .corrupt ∧
          supply.decode target = { supply with fault := some .corrupt }) ∨
        (supply.inflated.pause = none ∧ supply.inflated.fault ≠ some .corrupt ∧
          supply.decode target = { supply with ready := supply.inflated.bytes.size }))) := by
  rw [decode]
  by_cases hmany : windowEnd target < supply.inflated.bytes.size
  · exact .inl ⟨hmany, if_pos hmany⟩
  · rw [if_neg hmany]
    refine .inr ⟨Nat.le_of_not_lt hmany, ?_⟩
    cases hpause : supply.inflated.pause with
    | some size => exact .inl ⟨size, rfl, rfl⟩
    | none =>
      by_cases hcorrupt : supply.inflated.fault = some .corrupt
      · exact .inr (.inl ⟨rfl, hcorrupt, if_pos hcorrupt⟩)
      · exact .inr (.inr ⟨rfl, hcorrupt, if_neg hcorrupt⟩)

/-- Decoding that meets no fault makes something ready, and nothing else. -/
theorem decode_ready {target : Nat} (hinflated : supply.inflated = inflate supply.taken)
    (hfault : (supply.decode target).fault = none) :
    ∃ ready, supply.decode target = { supply with ready } ∧ (supply.decode target).Steady := by
  rcases decode_cases supply target with ⟨hmany, h⟩ | ⟨_, ⟨size, hpause, h⟩ | ⟨_, _, h⟩ | ⟨_, _, h⟩⟩
  · rw [h] at hfault ⊢
    exact ⟨_, rfl, Nat.le_of_lt hmany, hfault⟩
  · rw [h] at hfault ⊢
    rw [hinflated] at hpause
    refine ⟨_, rfl, ?_, hfault⟩
    rw [hinflated]
    exact inflate_pause _ hpause
  · rw [h] at hfault
    cases hfault
  · rw [h] at hfault ⊢
    exact ⟨_, rfl, Nat.le_refl _, hfault⟩

/-- How much was ready makes no difference for decoding. -/
theorem decode_forgets (supply : Supply) (ready target : Nat) :
    ({ supply with ready } : Supply).decode target = supply.decode target ∨
    (({ supply with ready } : Supply).decode target).fault = some .corrupt ∧
      (supply.decode target).fault = some .corrupt := by
  simp only [decode]
  split
  · exact .inl rfl
  · split
    · exact .inl rfl
    · split
      · exact .inr ⟨rfl, rfl⟩
      · exact .inl rfl

theorem decodeFrom_congr {other : Supply}
    (h : supply.decode (position + count) = other.decode (position + count)) :
    supply.decodeFrom piece position count left = other.decodeFrom piece position count left := by
  cases left <;> simp only [decodeFrom, h]

theorem decodeFrom_fault {fault : Fault}
    (hfault : (supply.decode (position + count)).fault = some fault) (left : Nat) :
    supply.decodeFrom piece position count left
      = (.error fault, supply.decode (position + count)) := by
  cases left <;> simp only [decodeFrom, hfault]

theorem decodeFrom_ready (hnone : (supply.decode (position + count)).fault = none)
    (hthere : position < (supply.decode (position + count)).ready) (left : Nat) :
    supply.decodeFrom piece position count left
      = (.ok ((supply.decode (position + count)).part position
          (min (position + count) (supply.decode (position + count)).ready)),
        supply.decode (position + count)) := by
  cases left <;> simp only [decodeFrom, hnone, if_pos hthere] <;> rfl

/-- A supply of which nothing is ready behind the position is drained as it is when it has decoded
for the greatest request. -/
theorem Drained.decode (hinflated : supply.inflated = inflate supply.taken)
    (hfault : supply.fault = none) (hready : supply.ready ≤ position)
    (hposition : position < finish)
    (hdrained : Drained piece finish position supply bytes) :
    (supply.decode finish).fault = none ∧
      Drained piece finish position (supply.decode finish) bytes := by
  obtain ⟨found, next, behind, hfetch, hsome, hbehind, rfl⟩ := hdrained.first hposition
  have hread : supply.decodeFrom piece position (finish - position) supply.left
      = (.ok found, next) := by
    rw [read, hfault] at hfetch
    dsimp only at hfetch
    rw [if_neg (Nat.not_lt.2 hready)] at hfetch
    exact hfetch
  have htarget : position + (finish - position) = finish := by omega
  have hnone : (supply.decode finish).fault = none := by
    cases hmet : (supply.decode finish).fault with
    | none => rfl
    | some fault =>
      rw [decodeFrom_fault (by rw [htarget, hmet])] at hread
      cases hread
  refine ⟨hnone, .more hposition ?_ hsome hbehind⟩
  obtain ⟨ready, hdecoded, hsteady⟩ := decode_ready hinflated hnone
  by_cases hthere : position < (supply.decode finish).ready
  · rw [← hread, decodeFrom_ready (by rw [htarget, hnone]) (by rw [htarget]; exact hthere),
      read_ready piece hsteady hthere, htarget]
  · have hagain : supply.decodeFrom piece position (finish - position) supply.left
        = (supply.decode finish).decodeFrom piece position (finish - position)
            (supply.decode finish).left := by
      have hleft : (supply.decode finish).left = supply.left := by rw [hdecoded]
      rw [hleft]
      apply decodeFrom_congr
      rw [htarget]
      rcases decode_forgets supply ready finish with hsame | ⟨_, hcorrupt⟩
      · rw [hdecoded] at hsame ⊢
        exact hsame.symm
      · rw [hnone] at hcorrupt
        cases hcorrupt
    rw [← hread, hagain, read, hnone]
    dsimp only
    rw [if_neg hthere]

/-- Decoding for a greater request is the same, unless that reaches into a further window and
the smaller one did not come to the end of what is decoded. -/
theorem decode_greater (supply : Supply) {target : Nat} (hfinish : target ≤ finish) :
    supply.decode finish = supply.decode target ∨
    (windowEnd target < finish ∧ windowEnd target < supply.inflated.bytes.size ∧
      supply.decode target = { supply with ready := windowEnd target }) := by
  have hmost : windowEnd target ≤ windowEnd finish :=
    windowEnd_least (Nat.le_trans hfinish (le_windowEnd finish)) (windowEnd_mod finish)
  rcases decode_cases supply target with ⟨hmany, h⟩ | ⟨hfew, _⟩
  · by_cases hend : windowEnd target < finish
    · exact .inr ⟨hend, hmany, h⟩
    · left
      have hleast := windowEnd_least (Nat.le_of_not_lt hend) (windowEnd_mod target)
      rw [h, Supply.decode, Nat.le_antisymm hleast hmost, if_pos hmany]
  · left
    rw [Supply.decode, Supply.decode, if_neg (Nat.not_lt.2 (Nat.le_trans hfew hmost)),
      if_neg (Nat.not_lt.2 hfew)]

/-- Decoding for a greater request makes no less ready than the window of the smaller one. -/
theorem windowEnd_le_ready {target : Nat} (hinflated : supply.inflated = inflate supply.taken)
    (hfinish : target ≤ finish) (hmany : windowEnd target < supply.inflated.bytes.size)
    (hnone : (supply.decode finish).fault = none) :
    windowEnd target ≤ (supply.decode finish).ready := by
  rcases decode_cases supply finish with ⟨_, h⟩ | ⟨_, ⟨size, hpause, h⟩ | ⟨_, _, h⟩ | ⟨_, _, h⟩⟩
  · rw [h]
    exact windowEnd_least (Nat.le_trans hfinish (le_windowEnd finish)) (windowEnd_mod finish)
  · -- decoding pauses at the last full window, so not before that of the smaller request
    rw [h]
    have hlimit := windowEnd_mod target
    rw [hinflated] at hpause hmany
    obtain ⟨_, hstop, hnext⟩ := inflate_paused _ size hpause
    simp only [windowSize] at hstop hnext hlimit
    show windowEnd target ≤ size
    omega
  · rw [h] at hnone
    cases hnone
  · rw [h]
    exact Nat.le_of_lt hmany

/-- Where a request finds something ready after decoding, decoding for the greatest request
makes at least that ready, and draining goes on alike. -/
theorem Drained.of_decode {target : Nat} (hinflated : supply.inflated = inflate supply.taken)
    (hnone : (supply.decode target).fault = none)
    (hthere : position < (supply.decode target).ready) (hposition : position < target)
    (hfinish : target ≤ finish)
    (hdrained : Drained piece finish (min target (supply.decode target).ready)
      (supply.decode target) rest) :
    (supply.decode finish).fault = none ∧ position < (supply.decode finish).ready ∧
      Drained piece finish position (supply.decode finish)
        (supply.part position (min target (supply.decode target).ready) ++ rest) := by
  obtain ⟨ready, hdecoded, hsteady⟩ := decode_ready hinflated hnone
  have hpart (first second : Nat) : supply.part first second
      = (supply.decode target).part first second := by rw [hdecoded]; rfl
  rcases decode_greater supply hfinish with hsame | ⟨hend, hmany, hready⟩
  · rw [hsame, hpart]
    exact ⟨hnone, hthere, drained_of_ready hsteady (by omega) (by omega) (by omega) hdrained⟩
  · have htarget := le_windowEnd target
    have hthrough : (supply.decode target).ready = windowEnd target := by rw [hready]
    rw [hthrough, Nat.min_eq_left htarget] at hdrained ⊢
    -- the window comes first, and behind it the greatest request is the only one
    obtain ⟨behind, rfl, hbehind⟩ := hdrained.behind_ready hsteady htarget
      (Nat.le_of_eq hthrough.symm) (Nat.le_of_lt hend)
    have hagain := hbehind.decode (by rw [hready]; exact hinflated) hnone
      (Nat.le_of_eq hthrough) hend
    have hforgets : (supply.decode target).decode finish = supply.decode finish := by
      rcases decode_forgets supply (windowEnd target) finish with hforgets | ⟨hcorrupt, _⟩
      · rw [hready]
        exact hforgets
      · rw [← hready, hagain.1] at hcorrupt
        cases hcorrupt
    rw [hforgets] at hagain
    obtain ⟨greater, hgreater, hgreaterSteady⟩ := decode_ready hinflated hagain.1
    have hreach := windowEnd_le_ready hinflated hfinish hmany hagain.1
    have hparts (first second : Nat) : supply.part first second
        = (supply.decode finish).part first second := by rw [hgreater]; rfl
    refine ⟨hagain.1, by omega, ?_⟩
    rw [← hpart, ← List.append_assoc, part_append (Nat.le_of_lt hposition) htarget, hparts]
    exact drained_of_ready hgreaterSteady (by omega) hreach (Nat.le_of_lt hend) hagain.2

/-! ## A smaller request first -/

/-- What is handed out of what is ready. -/
theorem slice_eq (supply : Supply) (position count : Nat) : supply.slice position count
    = supply.part position (min (position + count) supply.ready) := rfl

/-- An answer that draining may begin with. -/
def Begins (piece : (offset : Nat) → Bytes) (finish position : Nat)
    (answer : Except Fault Bytes × Supply) (bytes : Bytes) : Prop :=
  ∃ first after behind, answer = (.ok first, after) ∧ first ≠ [] ∧
    Drained piece finish (position + first.length) after behind ∧ bytes = first ++ behind

/-- What is ready begins what is drained. -/
theorem Drained.begins (h : supply.Steady) (hthere : position < supply.ready)
    (hposition : position < finish) (hdrained : Drained piece finish position supply bytes) :
    Begins piece finish position
      (.ok (supply.part position (min finish supply.ready)), supply) bytes := by
  obtain ⟨first, after, behind, hfetch, hsome, hbehind, heq⟩ := hdrained.first hposition
  rw [read_ready piece h hthere, show position + (finish - position) = finish by omega] at hfetch
  exact ⟨first, after, behind, hfetch, hsome, hbehind, heq⟩

/-- The answer when there are no more pieces. -/
def lastAnswer (supply : Supply) (position count : Nat) : Except Fault Bytes × Supply :=
  match supply.fault with
  | some .corrupt => (.error .corrupt, supply)
  | some .incomplete =>
    if position < supply.ready then (.ok (supply.slice position count), supply)
    else (.error .incomplete, supply)
  | none => (.ok (supply.slice position count), supply)

/-- Of a supply that has nothing more to decode, a smaller request hands out nothing that the
greatest one does not. -/
theorem lastAnswer_begins (hready : supply.ready = supply.inflated.bytes.size)
    (hfinish : position + count ≤ finish)
    (hanswer : supply.lastAnswer position count = (.ok found, next)) (hsome : found ≠ [])
    (hrest : Drained piece finish (position + found.length) next rest) :
    Begins piece finish position (supply.lastAnswer position (finish - position))
      (found ++ rest) := by
  have hinside := Nat.le_of_eq hready
  rw [lastAnswer] at hanswer ⊢
  cases hfault : supply.fault with
  | none =>
    rw [hfault] at hanswer
    obtain ⟨hfound, rfl⟩ := Prod.mk.inj hanswer
    obtain rfl := Except.ok.inj hfound
    have hlength := length_part position
      (show min (position + count) supply.ready ≤ supply.inflated.bytes.size by omega)
    have hpositive := List.length_pos_iff.2 hsome
    rw [slice_eq] at hrest hpositive ⊢
    rw [hlength, show position + (min (position + count) supply.ready - position)
      = min (position + count) supply.ready by omega] at hrest
    have hthere : position < supply.ready := by omega
    have hposition : position < finish := by omega
    have hdrained : Drained piece finish position supply
        (supply.part position (min (position + count) supply.ready) ++ rest) :=
      drained_of_ready ⟨hinside, hfault⟩ (by omega) (by omega) (by omega) hrest
    have hbegins := hdrained.begins ⟨hinside, hfault⟩ hthere hposition
    rw [slice_eq, show position + (finish - position) = finish by omega]
    exact hbegins
  | some fault =>
    rw [hfault] at hanswer
    cases fault with
    | corrupt => cases hanswer
    | incomplete =>
      dsimp only at hanswer ⊢
      by_cases hthere : position < supply.ready
      · rw [if_pos hthere] at hanswer ⊢
        obtain ⟨hfound, rfl⟩ := Prod.mk.inj hanswer
        obtain rfl := Except.ok.inj hfound
        have hlength := length_part position
          (show min (position + count) supply.ready ≤ supply.inflated.bytes.size by omega)
        rw [slice_eq] at hrest hsome ⊢
        -- the fault lets nothing follow, so this was the greatest request
        have hall : min (position + count) supply.ready = finish := by
          rcases Nat.lt_or_ge (min (position + count) supply.ready) finish with hshort | hlong
          · obtain ⟨_, _, _, hfetch, _⟩ := hrest.first (by omega)
            rw [read, hfault] at hfetch
            cases hfetch
          · omega
        rw [slice_eq, show position + (finish - position) = finish by omega,
          show min finish supply.ready = min (position + count) supply.ready by omega]
        exact ⟨_, _, rest, rfl, hsome, hrest, rfl⟩
      · rw [if_neg hthere] at hanswer
        cases hanswer

/-- Nothing is ready for a request when decoding has done what it can, and more may follow. -/
structure Wants (target position : Nat) (supply : Supply) : Prop where
  fault : (supply.decode target).fault = none
  ready : ¬position < (supply.decode target).ready
  more : ¬((supply.decode target).inflated.fault.isNone
    && (supply.decode target).inflated.pause.isNone) = true

/-- Then a piece is taken. -/
theorem Wants.decodeFrom_succ (h : supply.Wants (position + count) position)
    (piece : (offset : Nat) → Bytes) (left : Nat) :
    supply.decodeFrom piece position count (left + 1)
      = ((supply.decode (position + count)).take
          (piece (supply.decode (position + count)).taken.length)).decodeFrom piece position count
            left := by
  simp only [decodeFrom, h.fault, if_neg h.ready, if_neg h.more]

/-- Without pieces, that was the last answer. -/
theorem Wants.decodeFrom_zero (h : supply.Wants (position + count) position)
    (piece : (offset : Nat) → Bytes) :
    supply.decodeFrom piece position count 0
      = (supply.decode (position + count)).decodeLast.lastAnswer position count := by
  simp only [decodeFrom, h.fault, if_neg h.ready, if_neg h.more]
  rfl

/-- All that decoding for an answer can do at first: hand out what is ready, find the end of the
data, or want more. -/
theorem decodeFrom_eq_ok (hread : supply.decodeFrom piece position count left = (.ok found, next)) :
    ((supply.decode (position + count)).fault = none ∧
      position < (supply.decode (position + count)).ready ∧
      found = (supply.decode (position + count)).part position
        (min (position + count) (supply.decode (position + count)).ready) ∧
      next = supply.decode (position + count)) ∨
    (found = [] ∧ next = supply.decode (position + count)) ∨
    supply.Wants (position + count) position := by
  cases hmet : (supply.decode (position + count)).fault with
  | some fault =>
    rw [decodeFrom_fault hmet] at hread
    cases hread
  | none =>
    by_cases hthere : position < (supply.decode (position + count)).ready
    · rw [decodeFrom_ready hmet hthere] at hread
      obtain ⟨hfound, hnext⟩ := Prod.mk.inj hread
      exact .inl ⟨rfl, hthere, (Except.ok.inj hfound).symm, hnext.symm⟩
    · by_cases hend : ((supply.decode (position + count)).inflated.fault.isNone
          && (supply.decode (position + count)).inflated.pause.isNone) = true
      · have hnothing : supply.decodeFrom piece position count left
            = (.ok [], supply.decode (position + count)) := by
          cases left <;> simp only [decodeFrom, hmet, if_neg hthere, if_pos hend]
        rw [hnothing] at hread
        obtain ⟨hfound, hnext⟩ := Prod.mk.inj hread
        exact .inr (.inl ⟨(Except.ok.inj hfound).symm, hnext.symm⟩)
      · exact .inr (.inr ⟨hmet, hthere, hend⟩)

/-- A request that is answered after decoding may be replaced by the greatest one at once, or
wants more as that does. -/
theorem decodeFrom_begins_or (hinflated : supply.inflated = inflate supply.taken)
    (hcount : 0 < count) (hfinish : position + count ≤ finish)
    (hread : supply.decodeFrom piece position count left = (.ok found, next)) (hsome : found ≠ [])
    (hrest : Drained piece finish (position + found.length) next rest) :
    Begins piece finish position (supply.decodeFrom piece position (finish - position) left)
      (found ++ rest) ∨
    (supply.Wants (position + count) position ∧
      supply.decode finish = supply.decode (position + count)) := by
  have htarget : position + (finish - position) = finish := by omega
  rcases decodeFrom_eq_ok hread with ⟨hmet, hthere, rfl, rfl⟩ | ⟨rfl, _⟩ | hwants
  · left
    obtain ⟨ready, hdecoded, hsteady⟩ := decode_ready hinflated hmet
    have hpart (first second : Nat) : supply.part first second
        = (supply.decode (position + count)).part first second := by rw [hdecoded]; rfl
    have hinside := hsteady.ready
    rw [length_part _ (by omega), show position
      + (min (position + count) (supply.decode (position + count)).ready - position)
      = min (position + count) (supply.decode (position + count)).ready by omega] at hrest
    obtain ⟨hnone, hlater, hdrained⟩ :=
      Drained.of_decode hinflated hmet hthere (by omega) hfinish hrest
    obtain ⟨_, _, hgreater⟩ := decode_ready hinflated hnone
    rw [← hpart, decodeFrom_ready (by rw [htarget, hnone]) (by rw [htarget]; exact hlater),
      htarget]
    exact hdrained.begins hgreater hlater (by omega)
  · exact absurd rfl hsome
  · refine .inr ⟨hwants, ?_⟩
    rcases decode_greater supply hfinish with hsame | ⟨_, _, hready⟩
    · exact hsame
    · have hwithin := le_windowEnd (position + count)
      have hthere := hwants.ready
      rw [hready] at hthere
      simp only at hthere
      omega

/-- A request that is answered after decoding may be replaced by the greatest one. -/
theorem decodeFrom_begins (hinflated : supply.inflated = inflate supply.taken)
    (hcount : 0 < count) (hfinish : position + count ≤ finish)
    (hread : supply.decodeFrom piece position count left = (.ok found, next)) (hsome : found ≠ [])
    (hrest : Drained piece finish (position + found.length) next rest) :
    Begins piece finish position (supply.decodeFrom piece position (finish - position) left)
      (found ++ rest) := by
  have htarget : position + (finish - position) = finish := by omega
  -- both requests take the same pieces, until something is ready for the smaller one
  induction left generalizing supply with
  | zero =>
    rcases decodeFrom_begins_or hinflated hcount hfinish hread hsome hrest with
      hbegins | ⟨hwants, hsame⟩
    · exact hbegins
    · have hgreater : supply.Wants (position + (finish - position)) position := by
        rw [htarget]
        exact ⟨hsame ▸ hwants.fault, hsame ▸ hwants.ready, hsame ▸ hwants.more⟩
      rw [hwants.decodeFrom_zero] at hread
      rw [hgreater.decodeFrom_zero, htarget, hsame]
      exact lastAnswer_begins rfl hfinish hread hsome hrest
  | succ left ih =>
    rcases decodeFrom_begins_or hinflated hcount hfinish hread hsome hrest with
      hbegins | ⟨hwants, hsame⟩
    · exact hbegins
    · have hgreater : supply.Wants (position + (finish - position)) position := by
        rw [htarget]
        exact ⟨hsame ▸ hwants.fault, hsame ▸ hwants.ready, hsame ▸ hwants.more⟩
      rw [hwants.decodeFrom_succ] at hread
      rw [hgreater.decodeFrom_succ, htarget, hsame]
      exact ih rfl hread

/-- A request that is answered, and what is drained behind it, are together what is drained from
where the request began. -/
theorem drains_behind (h : supply.Honest) (hcount : 0 < count) (hfinish : position + count ≤ finish)
    (hread : supply.read piece position count = (.ok found, next)) (hsome : found ≠ [])
    (hrest : Drained piece finish (position + found.length) next rest) :
    Drained piece finish position supply (found ++ rest) := by
  cases hfault : supply.fault with
  | some fault =>
    rw [read, hfault] at hread
    cases hread
  | none =>
    have hsteady : supply.Steady := ⟨h.ready hfault, hfault⟩
    have hinside := hsteady.ready
    by_cases hthere : position < supply.ready
    · rw [read_ready piece hsteady hthere] at hread
      obtain ⟨hfound, rfl⟩ := Prod.mk.inj hread
      obtain rfl := Except.ok.inj hfound
      rw [length_part _ (by omega), show position + (min (position + count) supply.ready - position)
        = min (position + count) supply.ready by omega] at hrest
      exact drained_of_ready hsteady (by omega) (by omega) (by omega) hrest
    · have hdecodes (count : Nat) : supply.read piece position count
          = supply.decodeFrom piece position count supply.left := by
        rw [read, hfault]
        dsimp only
        rw [if_neg hthere]
      rw [hdecodes] at hread
      obtain ⟨first, after, behind, hfirst, hnonempty, hbehind, heq⟩ :=
        decodeFrom_begins h.inflated hcount hfinish hread hsome hrest
      rw [heq]
      exact .more (by omega) ((hdecodes _).trans hfirst) hnonempty hbehind

/-! ## What requests keep -/

theorem ofSize_honest (size : Nat) : (ofSize size).Honest :=
  ⟨rfl, fun _ => Nat.zero_le _⟩

theorem decode_honest (target : Nat) (hinflated : supply.inflated = inflate supply.taken) :
    (supply.decode target).Honest := by
  refine ⟨?_, fun hnone => ?_⟩
  · rcases decode_cases supply target with ⟨_, h⟩ | ⟨_, ⟨_, _, h⟩ | ⟨_, _, h⟩ | ⟨_, _, h⟩⟩ <;>
      rw [h] <;> exact hinflated
  · obtain ⟨_, _, hsteady⟩ := decode_ready hinflated hnone
    exact hsteady.ready

theorem length_slice (supply : Supply) (position count : Nat) :
    (supply.slice position count).length ≤ count := by
  simp only [slice, Array.length_toList, Array.size_extract]
  omega

/-- The last answer, if it is one, is what is ready. -/
theorem lastAnswer_eq_ok (h : supply.lastAnswer position count = (.ok found, next)) :
    found = supply.slice position count ∧ next = supply := by
  rw [lastAnswer] at h
  split at h
  · cases h
  · split at h
    · obtain ⟨hfound, rfl⟩ := Prod.mk.inj h
      exact ⟨(Except.ok.inj hfound).symm, rfl⟩
    · cases h
  · obtain ⟨hfound, rfl⟩ := Prod.mk.inj h
    exact ⟨(Except.ok.inj hfound).symm, rfl⟩

/-- However the data are spoiled, no more is handed out than was asked for. -/
theorem length_decodeFrom
    (hread : supply.decodeFrom piece position count left = (.ok found, next)) :
    found.length ≤ count := by
  induction left generalizing supply with
  | zero =>
    rcases decodeFrom_eq_ok hread with ⟨_, _, rfl, rfl⟩ | ⟨rfl, rfl⟩ | hwants
    · exact length_slice _ position count
    · exact Nat.zero_le _
    · rw [hwants.decodeFrom_zero] at hread
      obtain ⟨rfl, _⟩ := lastAnswer_eq_ok hread
      exact length_slice _ position count
  | succ left ih =>
    rcases decodeFrom_eq_ok hread with ⟨_, _, rfl, rfl⟩ | ⟨rfl, rfl⟩ | hwants
    · exact length_slice _ position count
    · exact Nat.zero_le _
    · rw [hwants.decodeFrom_succ] at hread
      exact ih hread

theorem length_read (hread : supply.read piece position count = (.ok found, next)) :
    found.length ≤ count := by
  rw [read] at hread
  split at hread
  · cases hread
  · split at hread
    · obtain rfl := Except.ok.inj (Prod.mk.inj hread).1
      exact length_slice _ position count
    · exact length_decodeFrom hread

/-- Decoding leaves the supply honest. -/
theorem decodeFrom_honest (hinflated : supply.inflated = inflate supply.taken)
    (hread : supply.decodeFrom piece position count left = (.ok found, next)) :
    next.Honest := by
  induction left generalizing supply with
  | zero =>
    have hdecoded := decode_honest (position + count) hinflated
    rcases decodeFrom_eq_ok hread with ⟨_, _, rfl, rfl⟩ | ⟨rfl, rfl⟩ | hwants
    · exact hdecoded
    · exact hdecoded
    · rw [hwants.decodeFrom_zero] at hread
      obtain ⟨_, rfl⟩ := lastAnswer_eq_ok hread
      exact ⟨hdecoded.inflated, fun _ => Nat.le_refl _⟩
  | succ left ih =>
    have hdecoded := decode_honest (position + count) hinflated
    rcases decodeFrom_eq_ok hread with ⟨_, _, rfl, rfl⟩ | ⟨rfl, rfl⟩ | hwants
    · exact hdecoded
    · exact hdecoded
    · rw [hwants.decodeFrom_succ] at hread
      exact ih rfl hread

theorem read_honest (h : supply.Honest)
    (hread : supply.read piece position count = (.ok found, next)) : next.Honest := by
  rw [read] at hread
  split at hread
  · cases hread
  · split at hread
    · obtain ⟨_, rfl⟩ := Prod.mk.inj hread
      exact h
    · exact decodeFrom_honest h.inflated hread

end Deflate.Supply

end ArchiveVfs
