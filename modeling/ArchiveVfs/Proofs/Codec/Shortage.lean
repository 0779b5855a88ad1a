import ArchiveVfs.Proofs.Codec.Reading
import ArchiveVfs.Proofs.Stream.Delivering
import ArchiveVfs.Proofs.Stream.EntryAsCursor

/-!
# Reads that run out of data

A reader over a stream that can be read to its end `Stands` at a place of its bytes, and goes on
doing so whatever it is asked for, also after reads that fail (`Stands.performAll`). `short_read`
says what a read of a fixed size that finds too few bytes leaves: from a view nothing is
consumed, from the stream all that was left. So a shorter read still finds its bytes afterwards
only with a view, or where no bytes were left anyway.
-/

namespace ArchiveVfs

namespace Stream

/-- A stream over memory or over a regular file, closed or open in a mode that permits reading,
with a view or without. -/
def CanDeliver (disk : Disk) : Stream → Prop
  | memory stream => stream.isOpen = true → stream.mode.canRead = true
  | file stream =>
    match stream.node with
    | some node => stream.mode.canRead = true ∧ disk.isFile node = true
    | none => ∃ node, disk.locate stream.uri.nativePath = .ok node ∧ disk.isFile node = true
  | entry _ => False

/-- Streams that can be read to the end of their bytes, closed or open, however they have been used
before: over memory, over a regular file, and over an entry with sound contents whose container
is mounted or stands on the disk. -/
inductive Offers (mounts : Mounts) (disk : Disk) (data : Bytes) : Stream → Prop where
  | plain {stream : Stream} (hreached : stream.Reached disk) (hdelivers : stream.CanDeliver disk)
      (hdata : stream.contents disk = data) : Offers mounts disk data stream
  | entry (uri : Uri) {path : String} {container : Bytes} {items : List Zip.Item}
      (hpath : EntryStream.entryPath? uri = some path)
      (hpacks : Packs container path (uri.queryValue Uri.passwordKey) items data)
      (hhas : (⟨mounts, disk⟩ : Scene).Has uri.archiveFile container items)
      (requests : List Request) :
      Offers mounts disk data ((Stream.entry { uri }).run mounts disk requests).1

variable {mounts : Mounts} {disk : Disk} {data : Bytes} {base stream : Stream}

namespace CanDeliver

/-- A closed stream has no view. -/
theorem isReadable (h : stream.CanDeliver disk) (hclosed : stream.isOpen = false) :
    stream.IsReadable disk := by
  cases stream with
  | memory stream =>
    intro hopen
    cases hopen.symm.trans hclosed
  | file stream =>
    have hnone : stream.node = none := by simpa [isOpen, FileStream.isOpen] using hclosed
    rw [CanDeliver, hnone] at h
    rw [IsReadable, hnone]
    exact h
  | entry stream => exact h

/-- An open stream delivers its bytes from where it stands. -/
theorem delivers (h : stream.CanDeliver disk) (hreached : stream.Reached disk)
    (hopen : stream.isOpen = true) :
    stream.Delivers (· = disk) (stream.contents disk) stream.position := by
  have hsettled := hreached.settled
  cases stream with
  | memory stream =>
    obtain ⟨uri, mode, data, position, isOpen, isMapped⟩ := stream
    obtain rfl : isOpen = true := hopen
    exact .memory uri mode isMapped (h rfl) hsettled.within
  | file stream =>
    obtain ⟨uri, mode, node, size, position, viewSize⟩ := stream
    cases node with
    | none => cases hopen
    | some node =>
      obtain ⟨hmode, hfile⟩ : mode.canRead = true ∧ disk.isFile node = true := h
      obtain ⟨data, hdata⟩ := Disk.isFile_iff.1 hfile
      obtain ⟨rfl, hwithin⟩ := hsettled.held node data rfl hdata
      show Delivers _ (disk.bytes node) _ _
      rw [Disk.bytes_of_file hdata]
      exact .file uri node mode viewSize hmode (fun _ hdisk => hdisk ▸ hdata) hwithin
  | entry stream => exact h.elim

/-- An open stream that can be mapped then shows all its bytes, also if it was mapped before. -/
theorem map (h : stream.CanDeliver disk) (hreached : stream.Reached disk)
    (hopen : stream.isOpen = true) (hmappable : stream.canBeMapped = true) :
    ∃ next, stream.map disk = .ok next ∧ next.position = stream.position ∧
      next.view? disk = some (stream.contents disk) := by
  have hsettled := hreached.settled
  cases stream with
  | memory stream =>
    obtain ⟨uri, mode, data, position, isOpen, isMapped⟩ := stream
    obtain rfl : isOpen = true := hopen
    exact ⟨_, rfl, rfl, rfl⟩
  | file stream =>
    have hread : stream.mode = .read := by simpa [canBeMapped] using hmappable
    cases hnode : stream.node with
    | none => simp [isOpen, FileStream.isOpen, hnode] at hopen
    | some node =>
      rw [CanDeliver, hnode] at h
      obtain ⟨data, hdata⟩ := Disk.isFile_iff.1 h.2
      obtain ⟨next, hmap⟩ := FileStream.map_of_regular hnode hread h.2
      have hshown := (FileStream.Settled.map hsettled hmap).viewed
      obtain ⟨_, size, rfl⟩ := FileStream.map_eq_ok hmap
      obtain rfl : size = data.length := (hshown size rfl).2 node data hnode hdata
      refine ⟨file { stream with viewSize := some data.length }, by rw [Stream.map, hmap]; rfl, rfl,
        ?_⟩
      simp only [Stream.view?, FileStream.view?, contents, hnode, Disk.view_of_file hdata]
      simp [Disk.bytes_of_file hdata]
  | entry stream => exact h.elim

end CanDeliver

theorem Serves.delivers (h : base.Serves disk data) {position : Nat}
    (hwithin : position ≤ data.length) :
    (base.moveTo position).Delivers (· = disk) data position := by
  cases h with
  | memory uri mode _ hmode => exact .memory uri mode false hmode hwithin
  | file uri node _ hdata =>
    exact .file uri node .read none rfl (fun _ hdisk => hdisk ▸ hdata) hwithin

/-- No request to an entry stream writes to the disk. -/
theorem disk_after_entry (stream : EntryStream) (request : Request) :
    ((Stream.entry stream).after mounts disk request).2 = disk := by
  cases request with
  | flush => rfl
  | view => rfl
  | call call =>
    cases call with
    | tryOpen =>
      simp only [after, perform, Stream.tryOpen]
      cases stream.tryOpen mounts disk <;> rfl
    | _ => rfl

/-- Requests leave an entry stream a match of some cursor in its contents. -/
theorem Matches.afterRun {stream : EntryStream} {cursor : Cursor}
    (h : Matches (· = disk) stream cursor)
    (hopens : Opens (· = disk) cursor.uri cursor.contents ⟨mounts, disk⟩)
    (requests : List Request) :
    ∃ next later, ((Stream.entry stream).run mounts disk requests).1 = .entry next ∧
      Matches (· = disk) next later ∧
      later.uri = cursor.uri ∧ later.contents = cursor.contents := by
  induction requests generalizing stream cursor with
  | nil => exact ⟨stream, cursor, rfl, h, rfl, rfl⟩
  | cons request requests ih =>
    obtain ⟨_, next, hafter, hnext⟩ :
        Matches.Agree (· = disk) ⟨mounts, disk⟩ stream cursor request :=
      h.agree rfl hopens request
    obtain ⟨huri, hcontents⟩ := cursor.after_contents request
    obtain ⟨last, later, hrun, hlast, huri', hcontents'⟩ :=
      ih hnext (by rw [huri, hcontents]; exact hopens)
    refine ⟨last, later, ?_, hlast, huri'.trans huri, hcontents'.trans hcontents⟩
    rw [Stream.run]
    simp only [hafter, disk_after_entry]
    exact hrun

end Stream

namespace Reader

/-- The reader after steps, also after ones that fail. -/
def performAll (reader : Reader) (disk : Disk) (steps : List Step) : Reader :=
  steps.foldl (fun reader step => (reader.perform disk step).2) reader

/-- The reader is open and finds the data from a position on: through a view of all of it, or in a
stream that stands there. -/
inductive Stands (disk : Disk) (data : Bytes) (position : Nat) (reader : Reader) : Prop where
  | streamed (hopen : reader.isOpen = true) (hview : reader.view = none)
      (hstream : reader.stream.Delivers (· = disk) data position)
  | mapped (hopen : reader.isOpen = true) (hview : reader.view = some (position, data.length))
      (hwithin : position ≤ data.length) (hshown : reader.stream.view? disk = some data)

namespace Stands

variable {disk : Disk} {data : Bytes} {position : Nat} {reader : Reader}

theorem within (h : reader.Stands disk data position) : position ≤ data.length := by
  cases h with
  | streamed _ _ hstream => exact hstream.within
  | mapped _ _ hwithin => exact hwithin

theorem position_eq (h : reader.Stands disk data position) : reader.position = position := by
  cases h with
  | streamed _ hview hstream => rw [Reader.position, hview, hstream.position_eq]
  | mapped _ hview => rw [Reader.position, hview]

theorem remaining (h : reader.Stands disk data position) :
    reader.remaining = data.length - position := by
  cases h with
  | streamed _ hview hstream => rw [Reader.remaining, hview, hstream.size, hstream.position_eq]
  | mapped _ hview => rw [Reader.remaining, hview]

theorem setOrder (h : reader.Stands disk data position) (order : ByteOrder) :
    { reader with order }.Stands disk data position := by
  cases h with
  | streamed hopen hview hstream => exact .streamed hopen hview hstream
  | mapped hopen hview hwithin hshown => exact .mapped hopen hview hwithin hshown

/-- Bytes that are there are read, and the reader stands behind them. -/
theorem readRaw (h : reader.Stands disk data position) {count : Nat}
    (hroom : position + count ≤ data.length) :
    ∃ next, reader.readRaw disk count = (.ok ((data.drop position).take count), next) ∧
      next.Stands disk data (position + count) ∧ next.isMapped = reader.isMapped := by
  cases h with
  | streamed hopen hview hstream =>
    obtain ⟨stream, hread, hmoved⟩ := hstream.read rfl count
    have hfound : ((data.drop position).take count).length = count := by
      rw [List.length_take, List.length_drop]
      omega
    rw [hfound] at hmoved
    refine ⟨{ reader with stream }, ?_, .streamed hopen hview hmoved, rfl⟩
    simp [Reader.readRaw, hopen, hview, readStream, hread, hfound]
  | mapped hopen hview hwithin hshown =>
    refine ⟨{ reader with view := some (position + count, data.length) }, ?_,
      .mapped hopen rfl hroom hshown, ?_⟩
    · simp [Reader.readRaw, hopen, hview, readView, hshown, Nat.not_lt.2 hroom]
    · simp [isMapped, hview]

/-- Where there are too few bytes, a view is left alone and a stream is read to its end. -/
theorem readRaw_short (h : reader.Stands disk data position) {count : Nat}
    (hshort : data.length < position + count) :
    ∃ next, reader.readRaw disk count
        = (.error (.outOfBounds count (data.length - position)), next) ∧
      next.isMapped = reader.isMapped ∧
      (reader.isMapped = true → next = reader) ∧
      (reader.isMapped = false → next.Stands disk data data.length) := by
  have hwithin := h.within
  cases h with
  | streamed hopen hview hstream =>
    obtain ⟨stream, hread, hmoved⟩ := hstream.read rfl count
    have hfound : ((data.drop position).take count).length = data.length - position := by
      rw [List.length_take, List.length_drop]
      omega
    rw [hfound, Nat.add_sub_cancel' hwithin] at hmoved
    refine ⟨{ reader with stream }, ?_, rfl, ?_, fun _ => .streamed hopen hview hmoved⟩
    · have hfew : data.length - position < count := by omega
      simp [Reader.readRaw, hopen, hview, readStream, hread, hfound, hfew]
    · intro hmapped
      simp [isMapped, hview] at hmapped
  | mapped hopen hview _ hshown =>
    refine ⟨reader, ?_, rfl, fun _ => rfl, ?_⟩
    · simp [Reader.readRaw, hopen, hview, readView, hshown, hshort]
    · intro hunmapped
      simp [isMapped, hview] at hunmapped

/-- Whatever becomes of a read of bytes, the reader goes on standing in the data. -/
theorem after_readRaw (h : reader.Stands disk data position) (count : Nat) :
    ∃ place, (reader.readRaw disk count).2.Stands disk data place ∧
      (reader.readRaw disk count).2.isMapped = reader.isMapped := by
  by_cases hroom : position + count ≤ data.length
  · obtain ⟨next, hread, hnext, hsame⟩ := h.readRaw hroom
    rw [hread]
    exact ⟨_, hnext, hsame⟩
  · obtain ⟨next, hread, hsame, hkept, hspent⟩ := h.readRaw_short (Nat.lt_of_not_le hroom)
    rw [hread]
    cases hmapped : reader.isMapped with
    | true =>
      obtain rfl := hkept hmapped
      exact ⟨position, h, hmapped⟩
    | false => exact ⟨data.length, hspent hmapped, hsame.trans hmapped⟩

theorem after_readBytes (h : reader.Stands disk data position) (shape : Shape) :
    ∃ place, (reader.readBytes disk shape).2.Stands disk data place ∧
      (reader.readBytes disk shape).2.isMapped = reader.isMapped := by
  obtain ⟨place, hhead, hmapped⟩ := h.after_readRaw shape.width
  rw [Reader.readBytes]
  rcases hraw : reader.readRaw disk shape.width with ⟨error | head, next⟩ <;>
    (rw [hraw] at hhead hmapped; dsimp only)
  · exact ⟨place, hhead, hmapped⟩
  · split
    · -- the bytes behind a length field are looked for only if so many are left
      rw [readCounted]
      split
      · exact ⟨place, hhead, hmapped⟩
      · obtain ⟨last, hbytes, hsame⟩ := hhead.after_readRaw (next.order.ofBytes head)
        exact ⟨last, hbytes, hsame.trans hmapped⟩
    · exact ⟨place, hhead, hmapped⟩

theorem after_read (h : reader.Stands disk data position) (shape : Shape) :
    ∃ place, (reader.read disk shape).2.Stands disk data place ∧
      (reader.read disk shape).2.isMapped = reader.isMapped := by
  obtain ⟨place, hbytes, hmapped⟩ := h.after_readBytes shape
  rw [Reader.read]
  rcases hread : reader.readBytes disk shape with ⟨error | bytes, next⟩ <;>
    rw [hread] at hbytes hmapped
  · exact ⟨place, hbytes, hmapped⟩
  · exact ⟨place, hbytes, hmapped⟩

theorem perform (h : reader.Stands disk data position) (step : Step) :
    ∃ place, (reader.perform disk step).2.Stands disk data place ∧
      (reader.perform disk step).2.isMapped = reader.isMapped := by
  cases step with
  | setOrder order => exact ⟨position, h.setOrder order, rfl⟩
  | atEnd => exact ⟨position, h, rfl⟩
  | read shape => exact h.after_read shape

/-- Also after reads that have failed a reader stands in the data. -/
theorem performAll (h : reader.Stands disk data position) (steps : List Step) :
    ∃ place, (reader.performAll disk steps).Stands disk data place ∧
      (reader.performAll disk steps).isMapped = reader.isMapped := by
  induction steps generalizing reader position with
  | nil => exact ⟨position, h, rfl⟩
  | cons step steps ih =>
    obtain ⟨place, hnext, hmapped⟩ := h.perform step
    obtain ⟨last, hlast, hsame⟩ := ih hnext
    exact ⟨last, hlast, hsame.trans hmapped⟩

/-! ## Reads of a fixed size -/

/-- Bytes without a length field always stand for a value. -/
theorem decode_plain {order : ByteOrder} {shape : Shape} (hplain : shape.isCounted = false)
    (bytes : Bytes) : ∃ value, shape.decode order bytes = .ok value := by
  cases shape with
  | text | blob => cases hplain
  | _ => exact ⟨_, rfl⟩

theorem read_plain {shape : Shape} (hplain : shape.isCounted = false) :
    reader.read disk shape =
      match reader.readRaw disk shape.width with
      | (.error error, next) => (.error error, next)
      | (.ok bytes, next) => (shape.decode next.order bytes, next) := by
  rw [Reader.read, Reader.readBytes]
  rcases reader.readRaw disk shape.width with ⟨error | bytes, next⟩
  · rfl
  · simp only [hplain]
    rfl

theorem read_whole (h : reader.Stands disk data position) {shape : Shape}
    (hplain : shape.isCounted = false) (hroom : position + shape.width ≤ data.length) :
    ∃ order, (reader.read disk shape).1
      = shape.decode order ((data.drop position).take shape.width) := by
  obtain ⟨next, hread, _⟩ := h.readRaw hroom
  rw [read_plain hplain, hread]
  exact ⟨next.order, rfl⟩

/-- What is wider than the bytes left is refused, a string or a blob for its length field. -/
theorem read_short (h : reader.Stands disk data position) {shape : Shape}
    (hshort : data.length < position + shape.width) :
    ∃ next, reader.read disk shape
        = (.error (.outOfBounds shape.width (data.length - position)), next) ∧
      (reader.isMapped = true → next = reader) ∧
      (reader.isMapped = false → next.Stands disk data data.length) := by
  obtain ⟨next, hread, _, hleft⟩ := h.readRaw_short hshort
  refine ⟨next, ?_, hleft⟩
  rw [Reader.read, Reader.readBytes, hread]

/-- At the end of the data only what has no bytes is read. -/
theorem read_at_end (h : reader.Stands disk data data.length) {shape : Shape}
    (hsome : 0 < shape.width) :
    (reader.read disk shape).1 = .error (.outOfBounds shape.width 0) := by
  obtain ⟨next, hread, _⟩ := h.read_short (Nat.lt_add_of_pos_right hsome)
  rw [hread, Nat.sub_self]

theorem read_none (h : reader.Stands disk data position) :
    (reader.read disk (.raw 0)).1 = .ok (.raw []) := by
  obtain ⟨order, hread⟩ := h.read_whole (rfl : (Shape.raw 0).isCounted = false) h.within
  rw [hread]
  rfl

/-- A read of a fixed size succeeds exactly where its bytes are. -/
theorem read_ok_iff (h : reader.Stands disk data position) {shape : Shape}
    (hplain : shape.isCounted = false) :
    (∃ value, (reader.read disk shape).1 = .ok value) ↔
      position + shape.width ≤ data.length := by
  constructor
  · rintro ⟨value, hvalue⟩
    apply Nat.le_of_not_lt
    intro hshort
    obtain ⟨next, hread, _⟩ := h.read_short hshort
    rw [hread] at hvalue
    cases hvalue
  · intro hroom
    obtain ⟨order, hread⟩ := h.read_whole hplain hroom
    rw [hread]
    exact decode_plain hplain _

end Stands

/-- What a read of a fixed size that finds too few bytes leaves of a reader. -/
structure Shortage (disk : Disk) (data : Bytes) (shape : Shape) (reader later : Reader) :
    Prop where
  /-- From a view nothing is consumed. -/
  viewed : reader.isMapped = true → later = reader
  /-- From a stream all that was left is consumed, and no byte is found afterwards. -/
  drained : reader.isMapped = false → later.position = data.length ∧
    ∀ other : Shape, 0 < other.width →
      (later.read disk other).1 = .error (.outOfBounds other.width 0)
  /-- The reader is where it was only with a view, or where nothing was left. -/
  place : later.position = reader.position ↔
    reader.isMapped = true ∨ reader.position = data.length
  /-- Only then do shorter reads find what they would have found before. -/
  retried : (∀ (other : Shape) (value : Value), other.isCounted = false →
      other.width < shape.width → (reader.read disk other).1 = .ok value →
        (later.read disk other).1 = .ok value) ↔
    reader.isMapped = true ∨ reader.position = data.length

theorem Stands.shortage {disk : Disk} {data : Bytes} {position : Nat} {reader : Reader}
    (h : reader.Stands disk data position) {shape : Shape}
    (hshort : data.length < position + shape.width) :
    Shortage disk data shape reader (reader.read disk shape).2 := by
  have hposition := h.position_eq
  have hwithin := h.within
  obtain ⟨later, hread, hviewed, hdrained⟩ := h.read_short hshort
  rw [hread]
  refine ⟨hviewed, ?_, ?_, ?_⟩
  · intro hunmapped
    have hlater := hdrained hunmapped
    exact ⟨hlater.position_eq, fun other => hlater.read_at_end⟩
  · cases hmapped : reader.isMapped with
    | true => simp [hviewed hmapped]
    | false => simp [(hdrained hmapped).position_eq, eq_comm]
  · cases hmapped : reader.isMapped with
    | true => simp [hviewed hmapped]
    | false =>
      have hlater := hdrained hmapped
      rw [hposition]
      simp only [Bool.false_eq_true, false_or]
      constructor
      · -- one byte that was there is not found again
        intro hretried
        apply Nat.le_antisymm hwithin
        apply Nat.le_of_not_lt
        intro hleft
        obtain ⟨value, hbyte⟩ := (h.read_ok_iff (rfl : Shape.uint8.isCounted = false)).2 hleft
        have hagain := hretried .uint8 value rfl
          (show 1 < shape.width by omega) hbyte
        have hnone := hlater.read_at_end (show 0 < Shape.uint8.width by decide)
        rw [hnone] at hagain
        cases hagain
      · -- where nothing is left, only what has no bytes can be read
        rintro rfl other value hplain - hvalue
        have hroom := (h.read_ok_iff hplain).1 ⟨value, hvalue⟩
        have hnone : other = .raw 0 := by
          cases other with
          | raw count =>
            have hcount : count = 0 := by
              simp only [Shape.width] at hroom
              omega
            rw [hcount]
          | _ =>
            simp only [Shape.width] at hroom
            omega
        subst hnone
        rw [h.read_none] at hvalue
        rw [hlater.read_none, hvalue]

/-! ## Opened readers -/

section Opened

variable {mounts : Mounts} {disk : Disk} {data : Bytes} {stream : Stream}

/-- An open reader over an entry; it has no view. -/
def overEntry (entry : EntryStream) (order : ByteOrder) (wantsView openedStream : Bool) :
    Reader where
  stream := .entry entry
  order
  wantsView
  openedStream
  isOpen := true

theorem mapView_entry (disk : Disk) (entry : EntryStream) (order : ByteOrder)
    (wantsView openedStream : Bool) :
    ({ stream := .entry entry, order, wantsView, openedStream } : Reader).mapView disk
      = (.ok (), overEntry entry order wantsView openedStream) := by
  simp [mapView, Stream.canBeMapped, overEntry]

theorem tryOpen_entry {entry : EntryStream} {cursor : Stream.Cursor}
    (h : Stream.Matches (· = disk) entry cursor)
    (hopens : Stream.Opens (· = disk) cursor.uri cursor.contents ⟨mounts, disk⟩)
    (order : ByteOrder) (wantsView : Bool) :
    ∃ next openedStream position,
      ({ stream := .entry entry, order, wantsView } : Reader).tryOpen mounts disk
        = (.ok (), overEntry next order wantsView openedStream) ∧
      (overEntry next order wantsView openedStream).Stands disk cursor.contents position := by
  cases h with
  | closed uri contents mode size =>
    obtain ⟨reader, hopen, hreader⟩ := hopens.tryOpen size
    refine ⟨_, true, 0, ?_, .streamed rfl rfl (.entry uri .read hreader)⟩
    rw [← mapView_entry disk]
    simp [tryOpen, Stream.tryOpen, Stream.setMode, EntryStream.setMode, Stream.isOpen,
      EntryStream.isOpen, hopen, Except.map]
  | opened uri contents mode hreader =>
    exact ⟨_, false, _, mapView_entry disk _ order wantsView false,
      .streamed rfl rfl (.entry uri mode hreader)⟩

/-- A reader that is opened over an open stream stands where the stream does, with a view if one
is wanted and the stream can be mapped. -/
theorem mapView_stands (h : stream.CanDeliver disk) (hreached : stream.Reached disk)
    (hopen : stream.isOpen = true) (order : ByteOrder) (wantsView : Bool) :
    ∃ opened, ({ stream, order, wantsView } : Reader).mapView disk = (.ok (), opened) ∧
      opened.Stands disk (stream.contents disk) stream.position ∧
      (opened.isMapped = true ↔ wantsView = true ∧ stream.canBeMapped = true) := by
  have hdelivers := h.delivers hreached hopen
  have hwithin := hdelivers.within
  by_cases hmapped : (wantsView && stream.canBeMapped) = true
  · have hboth : wantsView = true ∧ stream.canBeMapped = true := by simpa using hmapped
    obtain ⟨next, hmap, hposition, hshown⟩ := h.map hreached hopen hboth.2
    have hcursor : min next.position (stream.contents disk).length = stream.position := by
      rw [hposition]
      exact Nat.min_eq_left hwithin
    refine ⟨{ stream := next, order, wantsView, isOpen := true,
              view := some (stream.position, (stream.contents disk).length) }, ?_,
      .mapped rfl rfl hwithin hshown, by simp [isMapped, hboth]⟩
    simp only [mapView, if_pos hmapped, hmap, hshown, Option.map_some, Option.getD_some, hcursor]
  · refine ⟨{ stream, order, wantsView, isOpen := true }, ?_, .streamed rfl rfl hdelivers, ?_⟩
    · simp only [mapView, if_neg hmapped]
    · simpa [isMapped] using hmapped

/-- A reader that is opened over a stream that can be read stands in its bytes, with a view if one
is wanted and the stream is not over an entry, nor open in a mode that it cannot be mapped in. -/
theorem tryOpen_stands (h : stream.Offers mounts disk data) (order : ByteOrder)
    (wantsView : Bool) :
    ∃ opened position,
      ({ stream, order, wantsView } : Reader).tryOpen mounts disk = (.ok (), opened) ∧
      opened.Stands disk data position ∧
      (opened.isMapped = true ↔ wantsView = true ∧ (∀ entry, stream ≠ .entry entry) ∧
        (stream.isOpen = true → stream.canBeMapped = true)) := by
  cases h with
  | plain hreached hdelivers hdata =>
    have hplain : ∀ entry, stream ≠ .entry entry := by
      rintro entry rfl
      exact hreached.settled.elim
    cases hopen : stream.isOpen with
    | true =>
      obtain ⟨opened, hopened, hstands, hmapped⟩ :=
        mapView_stands hdelivers hreached hopen order wantsView
      rw [hdata] at hstands
      refine ⟨opened, _, ?_, hstands, ?_⟩
      · simp only [tryOpen, hopen]
        exact hopened
      · simpa [hplain] using hmapped
    | false =>
      obtain ⟨base, hserves, _, _, hstreamed, hmapped⟩ :=
        tryOpen_readable mounts order hreached (hdelivers.isReadable hopen)
      rw [hdata] at hserves hmapped
      have hwithin := hserves.position_le
      cases wantsView with
      | false =>
        exact ⟨_, _, hstreamed, .streamed rfl rfl (hserves.delivers hwithin),
          by simp [isMapped, streaming]⟩
      | true =>
        exact ⟨_, _, hmapped, .mapped rfl rfl hwithin hserves.view,
          by simp [isMapped, viewing, hplain]⟩
  | entry uri hpath hpacks hhas requests =>
    have hkept : Stream.Kept uri.archiveFile _ _ [(⟨mounts, disk⟩ : Scene)] :=
      .ofDisk hpacks.listed disk (by simpa using hhas)
    have hopens : Stream.Opens (· = disk) uri data ⟨mounts, disk⟩ := by
      have hopens := hkept.opens hpath hpacks
      rwa [show Stream.disksOf [(⟨mounts, disk⟩ : Scene)] = (· = disk) by
        funext other
        simp [Stream.disksOf]] at hopens
    obtain ⟨next, cursor, hrun, hnext, huri, hcontents⟩ :=
      Stream.Matches.afterRun (.closed uri data .read 0) hopens requests
    have huri : cursor.uri = uri := huri
    have hcontents : cursor.contents = data := hcontents
    obtain ⟨last, openedStream, position, hopened, hstands⟩ :=
      tryOpen_entry hnext (by rw [huri, hcontents]; exact hopens) order wantsView
    rw [hcontents] at hstands
    rw [hrun]
    exact ⟨_, position, hopened, hstands, by simp [isMapped, overEntry]⟩

end Opened

/-- Whatever a reader has been asked for before, over memory, over a file or over an entry, a read
of a fixed size succeeds where its bytes are, and else is out of bounds. It then consumes nothing
from a view, and all that is left of a stream; shorter reads are not affected only with a view, or
if nothing was left. -/
theorem short_read {mounts : Mounts} {disk : Disk} {data : Bytes} {stream : Stream}
    (hoffers : stream.Offers mounts disk data) (order : ByteOrder) (wantsView : Bool)
    (steps : List Step) :
    let opened := ({ stream, order, wantsView } : Reader).tryOpen mounts disk
    let reader := opened.2.performAll disk steps
    opened.1 = .ok () ∧
    (reader.isMapped = true ↔ wantsView = true ∧ (∀ entry, stream ≠ .entry entry) ∧
      (stream.isOpen = true → stream.canBeMapped = true)) ∧
    ∀ shape : Shape, shape.isCounted = false →
      ((∃ value, (reader.read disk shape).1 = .ok value) ↔
        reader.position + shape.width ≤ data.length) ∧
      ∀ error, (reader.read disk shape).1 = .error error →
        error = .outOfBounds shape.width (data.length - reader.position) ∧
        Shortage disk data shape reader (reader.read disk shape).2 := by
  intro opened reader
  obtain ⟨start, place, hopened, hstart, hmapped⟩ := tryOpen_stands hoffers order wantsView
  have hopened : opened = (.ok (), start) := hopened
  obtain ⟨position, hstands, hsame⟩ := hstart.performAll steps
  have hreader : start.performAll disk steps = reader := by
    show _ = opened.2.performAll disk steps
    rw [hopened]
  rw [hreader] at hstands hsame
  refine ⟨by rw [hopened], by rw [hsame, hmapped], ?_⟩
  intro shape hplain
  have hposition := hstands.position_eq
  have hok := hstands.read_ok_iff hplain
  rw [hposition]
  refine ⟨hok, ?_⟩
  intro error herror
  have hshort : data.length < position + shape.width := by
    apply Nat.lt_of_not_le
    intro hroom
    obtain ⟨value, hvalue⟩ := hok.2 hroom
    rw [hvalue] at herror
    cases herror
  obtain ⟨next, hread, _⟩ := hstands.read_short hshort
  rw [hread] at herror
  exact ⟨(Except.error.inj herror).symm, hstands.shortage hshort⟩

/-- An entry with one byte is read as a word, through a reader that wants a view. -/
theorem short_read_entry :
    let scene := Stream.mountedScene Server.smallContainer
    let stream :=
      ((Stream.entry { uri := Stream.smallEntry }).run scene.mounts scene.disk [.call .tryOpen]).1
    let reader := ({ stream, wantsView := true } : Reader).tryOpen scene.mounts scene.disk
    stream.Offers scene.mounts scene.disk [107] ∧
    (reader.2.read scene.disk .uint16).1 = .error (.outOfBounds 2 1) ∧
    (reader.2.read scene.disk .uint16).2.position = 1 := by
  intro scene stream reader
  have hpath : EntryStream.entryPath? Stream.smallEntry = some "k" := by decide +kernel
  have hpassword : Stream.smallEntry.queryValue Uri.passwordKey = none := by decide +kernel
  have hfile : Stream.smallEntry.archiveFile = Server.rootFile "/t.zip" := by decide +kernel
  have hoffers : stream.Offers scene.mounts scene.disk [107] :=
    .entry Stream.smallEntry hpath (by rw [hpassword]; exact Stream.packs_small)
      (by rw [hfile]; exact Stream.has_mountedScene) _
  have hread : (reader.2.read scene.disk .uint16).1 = .error (.outOfBounds 2 1) := by
    decide +kernel
  have hunmapped : reader.2.isMapped = false := by decide +kernel
  obtain ⟨_, _, hfixed⟩ := short_read hoffers .host true []
  obtain ⟨_, hshortage⟩ := (hfixed .uint16 rfl).2 _ hread
  exact ⟨hoffers, hread, (hshortage.drained hunmapped).1⟩

/-- A word that is cut short takes the bytes of the stream with it: a byte that could have been
read before is not found any more. -/
theorem short_read_consumes :
    let stream : Stream := .memory (.ofBytes [1, 2, 3])
    let reader := (({ stream } : Reader).tryOpen {} .blank).2
    let later := (reader.read .blank .int32).2
    stream.Offers {} .blank [1, 2, 3] ∧
    (reader.read .blank .int32).1 = .error (.outOfBounds 4 3) ∧
    reader.position = 0 ∧ later.position = 3 ∧
    (reader.read .blank .uint8).1 = .ok (.uint8 1) ∧
    (later.read .blank .uint8).1 = .error (.outOfBounds 1 0) :=
  ⟨.plain (.memory .blank MemoryStream.anonymous [1, 2, 3]) nofun rfl, rfl, rfl, rfl, rfl, rfl⟩

end Reader

end ArchiveVfs
