import ArchiveVfs.Proofs.Codec.Cursor
import ArchiveVfs.Proofs.Stream.Serving

/-!
# Readers over streams

A reader that calls into a stream and a reader over a view of it both follow a cursor in
the bytes that the stream serves (`follows_streaming`, `follows_viewing`), so they give
the same outcomes and, when closed, leave the stream in the same state:
`mapped_eq_streamed`.
-/

namespace ArchiveVfs

namespace Reader

/-- The reader that calls into a stream, at a cursor. -/
def streaming (base : Stream) (openedStream : Bool) (cursor : Cursor) : Reader where
  stream := base.moveTo cursor.position
  order := cursor.order
  openedStream
  isOpen := true

/-- The reader over a view of a stream, at a cursor. -/
def viewing (base : Stream) (openedStream : Bool) (size : Nat) (cursor : Cursor) : Reader where
  stream := base.withView size
  order := cursor.order
  wantsView := true
  view := some (cursor.position, size)
  openedStream
  isOpen := true

/-- The number of bytes before the place of a reader. -/
def position (reader : Reader) : Nat :=
  match reader.view with
  | some (cursor, _) => cursor
  | none => reader.stream.position

section Follows

variable {disk : Disk} {data : Bytes} {base : Stream}

theorem follows_streaming (h : base.Serves disk data) (openedStream : Bool) :
    Follows disk data (streaming base openedStream) where
  order cursor := rfl
  setOrder cursor order := rfl
  atEnd cursor := h.atEnd_moveTo cursor.position
  remaining cursor := by
    show (base.moveTo cursor.position).size - (base.moveTo cursor.position).position = _
    rw [h.size_moveTo, h.position_moveTo]
  readRaw cursor hwithin count := by
    have hread := (h.moveTo hwithin).read count
    rw [h.position_moveTo, Stream.moveTo_moveTo] at hread
    have hlength : ((data.drop cursor.position).take count).length
        = min count (data.length - cursor.position) := by simp
    show Tracks _ _ (readStream _ disk count)
    rw [readStream, Cursor.take]
    rw [show (streaming base openedStream cursor).stream.read disk count = _ from hread]
    -- the stream hands out what there is; fewer bytes than wanted are the failure
    by_cases hshort : data.length < cursor.position + count
    · have hfound : ((data.drop cursor.position).take count).length
          = data.length - cursor.position := by omega
      simp only [if_pos hshort, hfound]
      rw [if_pos (by omega)]
      rfl
    · have hfound : ((data.drop cursor.position).take count).length = count := by omega
      simp only [if_neg hshort, hfound]
      rw [if_neg (Nat.lt_irrefl count)]
      rfl

theorem follows_viewing (h : base.Serves disk data) (openedStream : Bool) :
    Follows disk data (viewing base openedStream data.length) where
  order cursor := rfl
  setOrder cursor order := rfl
  atEnd cursor := rfl
  remaining cursor := rfl
  readRaw cursor _ count := by
    show Tracks _ _ (readView _ disk cursor.position data.length count)
    rw [readView, Cursor.take]
    rw [show (viewing base openedStream data.length cursor).stream.view? disk = some data
      from h.view]
    by_cases hshort : data.length < cursor.position + count
    · simp only [if_pos hshort]
      rfl
    · simp only [if_neg hshort]
      rfl

theorem mapView_streaming (base : Stream) (disk : Disk) (order : ByteOrder)
    (openedStream : Bool) :
    ({ stream := base, order, openedStream } : Reader).mapView disk
      = (.ok (), streaming base openedStream { order, position := base.position }) := by
  rw [streaming, Stream.moveTo_position]
  rfl

theorem mapView_viewing (h : base.Serves disk data) (order : ByteOrder) (openedStream : Bool) :
    ({ stream := base, order, wantsView := true, openedStream } : Reader).mapView disk
      = (.ok (), viewing base openedStream data.length { order, position := base.position }) := by
  have hposition : min (base.withView data.length).position data.length = base.position := by
    have hsame : (base.withView data.length).position = base.position := by cases base <;> rfl
    rw [hsame]
    exact Nat.min_eq_left h.position_le
  simp only [mapView, h.canBeMapped, h.map, h.view]
  rw [viewing, ← hposition]
  rfl

/-- What closing leaves of a stream that is read at a position. -/
def leave (base : Stream) (openedStream : Bool) (position : Nat) : Stream :=
  if openedStream then base.close else base.moveTo position

theorem close_streaming (h : base.Serves disk data) (openedStream : Bool) (cursor : Cursor) :
    ((streaming base openedStream cursor).close disk).stream
      = leave base openedStream cursor.position := by
  cases openedStream with
  | false => rfl
  | true => exact h.close_moveTo cursor.position

theorem close_viewing (h : base.Serves disk data) (openedStream : Bool) {cursor : Cursor}
    (hwithin : cursor.position ≤ data.length) :
    ((viewing base openedStream data.length cursor).close disk).stream
      = leave base openedStream cursor.position := by
  cases openedStream with
  | false => exact h.seek_unmap hwithin
  | true => exact h.unmap_close

end Follows

/-! ## Opened readers -/

variable {disk : Disk} {stream : Stream}

/-- Opening a readable stream gives a reader at the start, over the stream itself if it
was open and over one that serves the same bytes if not. -/
theorem tryOpen_readable (mounts : Mounts) (order : ByteOrder) (hreached : stream.Reached disk)
    (hreadable : stream.IsReadable disk) :
    ∃ base, base.Serves disk (stream.contents disk) ∧
      (stream.isOpen = true → base = stream) ∧
      (stream.isOpen = false → base.position = 0 ∧ base.close.isOpen = false ∧
        base.close.isMapped = false ∧ base.close.contents disk = stream.contents disk) ∧
      ({ stream, order } : Reader).tryOpen mounts disk
        = (.ok (), streaming base (!stream.isOpen) { order, position := base.position }) ∧
      ({ stream, order, wantsView := true } : Reader).tryOpen mounts disk
        = (.ok (), viewing base (!stream.isOpen) (stream.contents disk).length
            { order, position := base.position }) := by
  cases hopen : stream.isOpen with
  | true =>
    have hserves := Stream.serves_of_open hreached hreadable hopen
    refine ⟨stream, hserves, fun _ => rfl, by simp, ?_, ?_⟩
    · simp only [tryOpen, hopen]
      exact mapView_streaming stream disk order false
    · simp only [tryOpen, hopen]
      exact mapView_viewing hserves order false
  | false =>
    obtain ⟨base, htry, hserves, hclosed⟩ := Stream.serves_of_closed mounts hreached hreadable hopen
    refine ⟨base, hserves, by simp, fun _ => hclosed, ?_, ?_⟩
    · simp only [tryOpen, hopen, htry]
      exact mapView_streaming base disk order true
    · simp only [tryOpen, hopen, htry]
      exact mapView_viewing hserves order true

/-- With a view or without, a reader over a stream that can be read follows a cursor in its
bytes. -/
theorem tryOpen_follows (mounts : Mounts) (order : ByteOrder) (wantsView : Bool)
    (hreached : stream.Reached disk) (hreadable : stream.IsReadable disk) :
    ∃ place start,
      ({ stream, order, wantsView } : Reader).tryOpen mounts disk = (.ok (), place start) ∧
      Follows disk (stream.contents disk) place ∧
      (∀ cursor, (place cursor).position = cursor.position) ∧
      start.position ≤ (stream.contents disk).length := by
  obtain ⟨base, hserves, _, _, hstreamed, hmapped⟩ :=
    tryOpen_readable mounts order hreached hreadable
  have hwithin := hserves.position_le
  cases wantsView with
  | false =>
    exact ⟨_, _, hstreamed, follows_streaming hserves _,
      fun cursor => hserves.position_moveTo cursor.position, hwithin⟩
  | true => exact ⟨_, _, hmapped, follows_viewing hserves _, fun _ => rfl, hwithin⟩

/-- Over every stream that can be read, a reader with mapping and one without give the
same outcomes up to the first failure, and leave the same stream when none fails: open
if it was open, without a view, over the same bytes, and behind what was consumed. -/
theorem mapped_eq_streamed (mounts : Mounts) (order : ByteOrder)
    (hreached : stream.Reached disk) (hreadable : stream.IsReadable disk) (steps : List Step) :
    let streamed := ({ stream, order } : Reader).tryOpen mounts disk
    let mapped := ({ stream, order, wantsView := true } : Reader).tryOpen mounts disk
    streamed.1 = .ok () ∧ streamed.2.isMapped = false ∧
    mapped.1 = .ok () ∧ mapped.2.isMapped = true ∧
    (mapped.2.run disk steps).1 = (streamed.2.run disk steps).1 ∧
    ((∀ outcome ∈ (streamed.2.run disk steps).1, outcome.isOk) →
      let left := ((streamed.2.run disk steps).2.close disk).stream
      ((mapped.2.run disk steps).2.close disk).stream = left ∧
      left.isOpen = stream.isOpen ∧ left.isMapped = false ∧
      left.contents disk = stream.contents disk ∧
      (stream.isOpen = true →
        left = stream.moveTo (stream.position + consumed (streamed.2.run disk steps).1))) := by
  intro streamed mapped
  obtain ⟨base, hserves, hsame, hclosed, hstreamed, hmapped⟩ :=
    tryOpen_readable mounts order hreached hreadable
  have hstreamed : streamed = _ := hstreamed
  have hmapped : mapped = _ := hmapped
  have hwithin := hserves.position_le
  -- both readers follow one cursor in the bytes of the stream
  generalize hstart : ({ order, position := base.position } : Cursor) = start at hstreamed hmapped
  have hposition : start.position = base.position := hstart ▸ rfl
  rw [← hposition] at hwithin
  obtain ⟨hanswers, hlast⟩ :=
    (follows_streaming hserves (!stream.isOpen)).run hwithin steps
  obtain ⟨hanswers', hlast'⟩ :=
    (follows_viewing hserves (!stream.isOpen)).run hwithin steps
  obtain ⟨hreached, hconsumed⟩ := Cursor.run_position hwithin steps
  rw [hstreamed, hmapped]
  refine ⟨rfl, rfl, rfl, rfl, hanswers'.trans hanswers.symm, ?_⟩
  intro hok
  rw [hanswers] at hok ⊢
  rw [hlast hok, hlast' hok, close_streaming hserves, close_viewing hserves _ hreached]
  refine ⟨rfl, ?_⟩
  cases hopen : stream.isOpen with
  | true =>
    obtain rfl := hsame hopen
    have hserves := hserves.moveTo hreached
    refine ⟨hserves.isOpen, hserves.isMapped, base.contents_moveTo _, ?_⟩
    intro _
    rw [← hposition, ← hconsumed]
    rfl
  | false =>
    obtain ⟨_, hisOpen, hisMapped, hcontents⟩ := hclosed hopen
    exact ⟨hisOpen, hisMapped, hcontents, by simp⟩

/-- A word, a look at the end and a blob that is cut short, in three bytes. -/
theorem mapped_eq_streamed_cut :
    let stream : Stream := .memory (.ofBytes [1, 0, 7])
    let steps : List Step := [.read .uint16, .atEnd, .read .blob]
    stream.Reached .blank ∧ stream.IsReadable .blank ∧
    ((({ stream, wantsView := true } : Reader).tryOpen {} .blank).2.run .blank steps).1
      = [.ok (.value (.uint16 1)), .ok (.flag false), .error (.outOfBounds 4 1)] := by
  intro stream steps
  have hreached : stream.Reached .blank := .memory .blank MemoryStream.anonymous [1, 0, 7]
  have hreadable : stream.IsReadable .blank := nofun
  obtain ⟨_, _, _, _, hsame, _⟩ :=
    mapped_eq_streamed {} .host hreached hreadable steps
  exact ⟨hreached, hreadable, hsame.trans rfl⟩

end Reader

end ArchiveVfs
