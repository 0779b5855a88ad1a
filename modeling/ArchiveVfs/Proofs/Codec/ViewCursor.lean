import ArchiveVfs.Proofs.Codec.Access

/-!
# The cursor in the view

A reader that reads from a view keeps a cursor in it and the size that it had when it was
mapped; neither is checked against the view again. `InView` is what makes this safe: while
there is a cursor, the reader is open, the stream shows a view of just that size, whatever
becomes of the disk, and the cursor has not passed its end. Every call keeps it, in any
order and also where it fails (`InView.after`), as reads leave the stream alone and only move
the cursor on (`Onward`).
-/

namespace ArchiveVfs

namespace Stream

variable {stream next : Stream} {disk : Disk}

/-- The stream shows a view of so many bytes, whatever the disk holds. -/
def Shows (stream : Stream) (size : Nat) : Prop :=
  ∀ disk, ∃ view, stream.view? disk = some view ∧ view.length = size

/-- A stream that has been mapped shows a view, of one size on every disk. -/
theorem shows_of_map (hmap : stream.map disk = .ok next) : ∃ size, next.Shows size := by
  cases stream with
  | memory stream =>
    obtain ⟨inner, hinner, rfl⟩ := Outcome.map_eq_ok.1 hmap
    rw [MemoryStream.map] at hinner
    split at hinner
    · obtain rfl := Except.ok.inj hinner
      exact ⟨stream.data.length, fun _ => ⟨stream.data, rfl, rfl⟩⟩
    · cases hinner
  | file stream =>
    obtain ⟨inner, hinner, rfl⟩ := Outcome.map_eq_ok.1 hmap
    obtain ⟨hopen, size, rfl⟩ := FileStream.map_eq_ok hinner
    obtain ⟨node, hnode⟩ := Option.ne_none_iff_exists'.1 hopen
    refine ⟨size, fun disk => ⟨disk.view node size, ?_, disk.length_view node size⟩⟩
    simp only [view?, FileStream.view?, hnode]
  | entry stream => cases hmap

end Stream

namespace Reader

variable {reader next later : Reader} {mounts : Mounts} {disk : Disk}

/-- The cursor in the view; there is none where nothing is mapped. -/
def cursor (reader : Reader) : Nat :=
  (reader.view.map (·.1)).getD 0

/-- The end of the view that the cursor moves in. -/
def viewEnd (reader : Reader) : Nat :=
  (reader.view.map (·.2)).getD 0

/-- The cursor of a mapped reader stands in the view that the stream shows. -/
structure InView (reader : Reader) : Prop where
  isOpen : reader.isMapped = true → reader.isOpen = true
  shows : reader.isMapped = true → reader.stream.Shows reader.viewEnd
  within : reader.cursor ≤ reader.viewEnd
  unmapped : reader.isMapped = false → reader.cursor = 0 ∧ reader.viewEnd = 0

theorem InView.of_none (h : reader.view = none) : reader.InView := by
  have hmapped : reader.isMapped = false := by rw [isMapped, h]; rfl
  refine ⟨?_, ?_, ?_, fun _ => ?_⟩
  · rw [hmapped]
    intro hfalse
    cases hfalse
  · rw [hmapped]
    intro hfalse
    cases hfalse
  · rw [cursor, viewEnd, h]
    exact Nat.le_refl 0
  · rw [cursor, viewEnd, h]
    exact ⟨rfl, rfl⟩

theorem view_of_isMapped (h : reader.isMapped = true) :
    reader.view = some (reader.cursor, reader.viewEnd) := by
  obtain ⟨⟨cursor, size⟩, hview⟩ := Option.isSome_iff_exists.1 h
  rw [Reader.cursor, viewEnd, hview]
  rfl

theorem view_of_not_isMapped (h : reader.isMapped = false) : reader.view = none :=
  Option.isSome_eq_false_iff.1 h |> Option.isNone_iff_eq_none.1

/-- A reader that is not open has no view. -/
theorem InView.view_eq_none (h : reader.InView) (hclosed : reader.isOpen = false) :
    reader.view = none := by
  cases hmapped : reader.isMapped with
  | false => exact view_of_not_isMapped hmapped
  | true =>
    rw [h.isOpen hmapped] at hclosed
    cases hclosed

/-! ## What reads do to the cursor -/

/-- A view stays mapped and keeps its size, its stream is left alone, and the cursor moves on
and not past its end. -/
structure Onward (reader next : Reader) : Prop where
  isOpen : next.isOpen = reader.isOpen
  isMapped : next.isMapped = reader.isMapped
  stream : reader.isMapped = true → next.stream = reader.stream
  viewEnd : next.viewEnd = reader.viewEnd
  cursor : reader.cursor ≤ next.cursor
  within : reader.cursor ≤ reader.viewEnd → next.cursor ≤ reader.viewEnd

theorem Onward.refl (reader : Reader) : reader.Onward reader :=
  ⟨rfl, rfl, fun _ => rfl, rfl, Nat.le_refl _, id⟩

theorem Onward.trans (h : reader.Onward next) (hlater : next.Onward later) :
    reader.Onward later where
  isOpen := hlater.isOpen.trans h.isOpen
  isMapped := hlater.isMapped.trans h.isMapped
  stream hmapped := (hlater.stream (h.isMapped.trans hmapped)).trans (h.stream hmapped)
  viewEnd := hlater.viewEnd.trans h.viewEnd
  cursor := Nat.le_trans h.cursor hlater.cursor
  within hwithin := by
    rw [← h.viewEnd]
    apply hlater.within
    rw [h.viewEnd]
    exact h.within hwithin

theorem Onward.inView (h : reader.Onward next) (hin : reader.InView) : next.InView where
  isOpen hmapped := by
    rw [h.isMapped] at hmapped
    rw [h.isOpen]
    exact hin.isOpen hmapped
  shows hmapped := by
    rw [h.isMapped] at hmapped
    rw [h.stream hmapped, h.viewEnd]
    exact hin.shows hmapped
  within := by
    rw [h.viewEnd]
    exact h.within hin.within
  unmapped hmapped := by
    rw [h.isMapped] at hmapped
    obtain ⟨hcursor, hend⟩ := hin.unmapped hmapped
    have hstays := h.within hin.within
    rw [h.viewEnd]
    exact ⟨by omega, hend⟩

/-- Only the stream of a reader without a view is replaced. -/
theorem onward_stream (hview : reader.view = none) (stream : Stream) :
    reader.Onward { reader with stream } where
  isOpen := rfl
  isMapped := rfl
  stream hmapped := by
    rw [isMapped, hview] at hmapped
    cases hmapped
  viewEnd := rfl
  cursor := Nat.le_refl _
  within := id

theorem onward_readRaw (reader : Reader) (disk : Disk) (count : Nat) :
    reader.Onward (reader.readRaw disk count).2 := by
  rw [readRaw]
  split
  · exact .refl reader
  · split
    · rename_i cursor size hview
      rw [readView]
      split
      · exact .refl reader
      · split
        · exact .refl reader
        · rename_i hwithin
          have hcursor : reader.cursor = cursor := by rw [Reader.cursor, hview]; rfl
          have hend : reader.viewEnd = size := by rw [viewEnd, hview]; rfl
          refine ⟨rfl, ?_, fun _ => rfl, hend.symm, ?_, fun _ => ?_⟩
          · rw [isMapped, isMapped, hview]
            rfl
          · show reader.cursor ≤ cursor + count
            rw [hcursor]
            exact Nat.le_add_right _ _
          · rw [hend]
            exact Nat.le_of_not_lt hwithin
    · rename_i hview
      rw [readStream]
      rcases reader.stream.read disk count with ⟨error | data, stream⟩
      · exact onward_stream hview stream
      · dsimp only
        split <;> exact onward_stream hview stream

theorem Raws.onward (h : reader.Raws next) : reader.Onward next := by
  induction h with
  | here => exact .refl reader
  | raw disk count _ ih => exact ih.trans (onward_readRaw _ disk count)

theorem onward_perform (reader : Reader) (disk : Disk) (step : Step) :
    reader.Onward (reader.perform disk step).2 := by
  cases step with
  | setOrder order => exact ⟨rfl, rfl, fun _ => rfl, rfl, Nat.le_refl _, id⟩
  | atEnd => exact .refl reader
  | read shape => exact (read_raws reader disk shape).onward

/-- Of the calls on an open reader only closing gives the view up. -/
theorem onward_after (hopen : reader.isOpen = true) (mounts : Mounts) (disk : Disk) {call : Call}
    (hcall : call ≠ .close) : reader.Onward (reader.after mounts disk call) := by
  cases call with
  | tryOpen =>
    rw [after, tryOpen, if_pos hopen]
    exact .refl reader
  | close => exact absurd rfl hcall
  | wantView wanted => exact ⟨rfl, rfl, fun _ => rfl, rfl, Nat.le_refl _, id⟩
  | step step => exact onward_perform reader disk step

/-! ## What opening and closing do to it -/

theorem view_release (reader : Reader) : reader.release.view = reader.view := by
  rw [release]
  split <;> rfl

/-- The cursor begins where the stream stood, or at the end if it stood behind that. -/
theorem inView_mapView (hnone : reader.view = none) (disk : Disk) :
    (reader.mapView disk).2.InView := by
  rw [mapView]
  split
  · cases hmap : reader.stream.map disk with
    | ok stream =>
      obtain ⟨size, hshows⟩ := Stream.shows_of_map hmap
      obtain ⟨shown, hshown, hlength⟩ := hshows disk
      refine ⟨fun _ => rfl, fun _ => ?_, ?_, fun hfalse => by cases hfalse⟩
      · show stream.Shows (((stream.view? disk).map (·.length)).getD 0)
        rw [hshown, Option.map_some, Option.getD_some, hlength]
        exact hshows
      · exact Nat.min_le_right _ _
    | error error =>
      dsimp only
      split
      · rename_i hok
        cases hok
      · exact .of_none hnone
      · exact .of_none hnone
      · exact .of_none ((view_release reader).trans hnone)
  · exact .of_none hnone

theorem InView.tryOpen (h : reader.InView) (mounts : Mounts) (disk : Disk) :
    (reader.tryOpen mounts disk).2.InView := by
  rw [Reader.tryOpen]
  split
  · exact h
  · rename_i hclosed
    have hnone := h.view_eq_none (Bool.eq_false_iff.2 hclosed)
    split
    · exact inView_mapView hnone disk
    · dsimp only
      split
      · exact .of_none hnone
      · apply inView_mapView
        exact hnone

theorem view_leaveView (reader : Reader) (disk : Disk) : (reader.leaveView disk).view = none := by
  rw [leaveView]
  split
  · assumption
  · rfl

theorem InView.close (h : reader.InView) (disk : Disk) : (reader.close disk).InView := by
  rw [Reader.close]
  split
  · apply InView.of_none
    exact (view_release _).trans (view_leaveView reader disk)
  · exact h

/-- Every call keeps the cursor in the view, whether it succeeds or not. -/
theorem InView.after (h : reader.InView) (mounts : Mounts) (disk : Disk) (call : Call) :
    (reader.after mounts disk call).InView := by
  cases call with
  | tryOpen => exact h.tryOpen mounts disk
  | close => exact h.close disk
  | wantView wanted => exact ⟨h.isOpen, h.shows, h.within, h.unmapped⟩
  | step step => exact (onward_perform reader disk step).inView h

/-! ## Any sequence of calls -/

/-- A call, with the mounted archives and the disk as they are at that time. -/
structure Turn where
  mounts : Mounts
  disk : Disk
  call : Call

/-- The reader after calls, also after ones that fail. -/
def afterAll (reader : Reader) (turns : List Turn) : Reader :=
  turns.foldl (fun reader turn => reader.after turn.mounts turn.disk turn.call) reader

theorem InView.afterAll (h : reader.InView) (turns : List Turn) :
    (reader.afterAll turns).InView := by
  induction turns generalizing reader with
  | nil => exact h
  | cons turn turns ih => exact ih (h.after turn.mounts turn.disk turn.call)

theorem onward_afterAll (hopen : reader.isOpen = true) {turns : List Turn}
    (hcalls : ∀ turn ∈ turns, turn.call ≠ .close) : reader.Onward (reader.afterAll turns) := by
  induction turns generalizing reader with
  | nil => exact .refl reader
  | cons turn turns ih =>
    obtain ⟨hcall, hrest⟩ := List.forall_mem_cons.1 hcalls
    have hfirst := onward_after hopen turn.mounts turn.disk hcall
    exact hfirst.trans (ih (hfirst.isOpen.trans hopen) hrest)

/-- A reader reads from its view: the bytes at the cursor, and none where they would pass the
end. -/
structure ReadsView (reader : Reader) (disk : Disk) (shown : Bytes) : Prop where
  view : reader.stream.view? disk = some shown
  length : shown.length = reader.viewEnd
  readRaw : ∀ count, reader.readRaw disk count =
    if reader.viewEnd < reader.cursor + count then
      (.error (.outOfBounds count (reader.viewEnd - reader.cursor)), reader)
    else
      (.ok ((shown.drop reader.cursor).take count),
        { reader with view := some (reader.cursor + count, reader.viewEnd) })

/-- Bytes lie in a view, behind the cursor of the reader before and up to that of the one after. -/
structure Between (reader next : Reader) (shown data : Bytes) : Prop where
  behind : reader.cursor + data.length ≤ next.cursor
  within : next.cursor ≤ shown.length
  data : data = (shown.drop (next.cursor - data.length)).take data.length

/-- What is read lies in the view, and no more is asked for than is left. -/
structure Bounded (reader : Reader) (disk : Disk) : Prop where
  /-- From a view a reader reads what is there. -/
  raw : reader.isMapped = true → ∃ shown, reader.ReadsView disk shown
  /-- So it does where it reads a value. -/
  value : reader.isMapped = true → ∀ shape data next,
    reader.readBytes disk shape = (.ok data, next) →
    ∃ shown, reader.stream.view? disk = some shown ∧ reader.Between next shown data
  /-- Behind a length field no more bytes are read than are left, from a view or not; a greater
  number is refused without a further read. -/
  counted : ∀ shape head next, shape.isCounted = true →
    reader.readRaw disk shape.width = (.ok head, next) →
    reader.readBytes disk shape =
      if next.remaining < reader.order.ofBytes head then
        (.error (.outOfBounds (reader.order.ofBytes head) next.remaining), next)
      else next.readRaw disk (reader.order.ofBytes head)

theorem order_readRaw (reader : Reader) (disk : Disk) (count : Nat) :
    (reader.readRaw disk count).2.order = reader.order := by
  rw [readRaw]
  split
  · rfl
  · split
    · rw [readView]
      split
      · rfl
      · split <;> rfl
    · rw [readStream]
      rcases reader.stream.read disk count with ⟨error | data, stream⟩
      · rfl
      · dsimp only
        split <;> rfl

theorem InView.readsView (h : reader.InView) (hmapped : reader.isMapped = true) (disk : Disk) :
    ∃ shown, reader.ReadsView disk shown := by
  obtain ⟨shown, hshown, hlength⟩ := h.shows hmapped disk
  refine ⟨shown, hshown, hlength, fun count => ?_⟩
  simp only [readRaw, h.isOpen hmapped, view_of_isMapped hmapped, readView, hshown]
  rfl

/-- Bytes that are read from a view end at the cursor. -/
theorem ReadsView.between {shown data : Bytes} (h : reader.ReadsView disk shown) {count : Nat}
    (hread : reader.readRaw disk count = (.ok data, next)) : reader.Between next shown data := by
  rw [h.readRaw] at hread
  split at hread
  · cases hread
  · rename_i hwithin
    have hlength := h.length
    obtain ⟨hdata, rfl⟩ := Prod.mk.inj hread
    obtain rfl := Except.ok.inj hdata
    have hcount : ((shown.drop reader.cursor).take count).length = count := by
      rw [List.length_take, List.length_drop]
      omega
    refine ⟨?_, ?_, ?_⟩
    · rw [hcount]
      exact Nat.le_refl _
    · rw [hlength]
      exact Nat.le_of_not_lt hwithin
    · rw [hcount]
      show _ = (shown.drop (reader.cursor + count - count)).take count
      rw [Nat.add_sub_cancel]

/-- The count in a length field is held against what is left behind the field. -/
theorem readBytes_counted {shape : Shape} {head : Bytes} (hcounted : shape.isCounted = true)
    (hhead : reader.readRaw disk shape.width = (.ok head, next)) :
    reader.readBytes disk shape =
      if next.remaining < reader.order.ofBytes head then
        (.error (.outOfBounds (reader.order.ofBytes head) next.remaining), next)
      else next.readRaw disk (reader.order.ofBytes head) := by
  have horder : next.order = reader.order := by
    rw [← order_readRaw reader disk shape.width, hhead]
  rw [readBytes, hhead]
  dsimp only
  rw [if_pos hcounted, readCounted, horder]

theorem InView.readBytes (h : reader.InView) (hmapped : reader.isMapped = true) {shape : Shape}
    {data : Bytes} (hread : reader.readBytes disk shape = (.ok data, next)) :
    ∃ shown, reader.stream.view? disk = some shown ∧ reader.Between next shown data := by
  rcases hraw : reader.readRaw disk shape.width with ⟨error | head, middle⟩
  · rw [Reader.readBytes, hraw] at hread
    cases hread
  · cases hcounted : shape.isCounted with
    | false =>
      simp only [Reader.readBytes, hraw, hcounted] at hread
      obtain ⟨hsame, rfl⟩ := Prod.mk.inj hread
      obtain rfl := Except.ok.inj hsame
      obtain ⟨shown, hview⟩ := h.readsView hmapped disk
      exact ⟨shown, hview.view, hview.between hraw⟩
    | true =>
      rw [readBytes_counted hcounted hraw] at hread
      split at hread
      · cases hread
      · -- the payload is read by the reader that stands behind the field
        have honward : reader.Onward middle := by
          have hfirst := onward_readRaw reader disk shape.width
          rwa [hraw] at hfirst
        obtain ⟨shown, hview⟩ :=
          (honward.inView h).readsView (honward.isMapped.trans hmapped) disk
        obtain ⟨hbehind, hwithin, hdata⟩ := hview.between hread
        have hcursor := honward.cursor
        refine ⟨shown, ?_, by omega, hwithin, hdata⟩
        rw [← honward.stream hmapped]
        exact hview.view

/-- Whatever calls come, in any order and with any outcome, a mapped reader is open, its stream
shows a view and the cursor stands in it; without a view there is no cursor. Every read stays
within the view, and a length field makes nothing be read that is not there. While the reader
is not closed, the cursor never moves back and the end stays where it is. -/
theorem cursor_in_view (stream : Stream) (turns : List Turn) :
    let reader := ({ stream } : Reader).afterAll turns
    reader.InView ∧ (∀ disk, reader.Bounded disk) ∧
    ∀ later, reader.isOpen = true → (∀ turn ∈ later, turn.call ≠ .close) →
      reader.Onward (reader.afterAll later) := by
  intro reader
  have hin : reader.InView := (InView.of_none rfl).afterAll turns
  refine ⟨hin, fun disk => ?_, fun later hopen hcalls => onward_afterAll hopen hcalls⟩
  refine ⟨fun hmapped => hin.readsView hmapped disk, ?_, ?_⟩
  · intro hmapped shape data next hread
    exact hin.readBytes hmapped hread
  · intro shape head next hcounted hhead
    exact readBytes_counted hcounted hhead

/-- A stream over a length field of five that has two bytes behind it, and calls that open a
reader with a view of it. -/
def fieldTooGreat : Stream × List Turn :=
  (.memory { uri := MemoryStream.anonymous, data := [5, 0, 0, 0, 1, 2] },
    [.step (.setOrder .little), .wantView true, .tryOpen].map fun call => ⟨{}, .blank, call⟩)

theorem cursor_in_view_field :
    let reader := ({ stream := fieldTooGreat.1 } : Reader).afterAll fieldTooGreat.2
    reader.isOpen = true ∧ reader.isMapped = true ∧ reader.cursor = 0 ∧ reader.viewEnd = 6 ∧
    (reader.readBytes .blank .blob).1 = .error (.outOfBounds 5 2) ∧
    (reader.afterAll [⟨{}, .blank, .step (.read .blob)⟩]).cursor ≤ 6 := by
  intro reader
  obtain ⟨hin, hbounded, honward⟩ := cursor_in_view fieldTooGreat.1 fieldTooGreat.2
  have hopen : reader.isOpen = true := rfl
  have hcalls : ∀ turn ∈ [(⟨{}, .blank, .step (.read .blob)⟩ : Turn)], turn.call ≠ .close := by
    intro turn hturn
    obtain rfl := List.mem_singleton.1 hturn
    exact nofun
  have hlater := honward [⟨{}, .blank, .step (.read .blob)⟩] hopen hcalls
  refine ⟨hopen, rfl, rfl, rfl, ?_, hlater.within hin.within⟩
  -- two bytes are left behind the field
  rw [(hbounded .blank).counted .blob [5, 0, 0, 0] _ rfl rfl]
  rfl

end Reader

end ArchiveVfs
