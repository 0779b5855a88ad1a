import ArchiveVfs.Codec.Writer
import ArchiveVfs.Proofs.Codec.Reading

/-!
# Records of values

A record is a list of values, each with the byte order that is set before it. A writer
over a memory stream puts their bytes one after the other and refuses only strings that
are too long, which leave no byte; a reader takes them back. `record_round_trip` joins
both: the writer by induction on the record (`putAll_standing`), the reader through the
cursor that it follows (`Cursor.run_encodings`).
-/

namespace ArchiveVfs

/-- A value, and the byte order that is set before it. -/
abbrev Item := ByteOrder × Value

namespace Item

/-- The bytes that an item adds. -/
def bytes (item : Item) : Bytes :=
  (item.2.encode item.1).toOption.getD []

/-- What writing the item answers: only a string can be too long. -/
def outcome : Item → Except Error Unit
  | (_, .text value) =>
    if maxTextSize < (Text.Utf8.bytesOf value).length then
      .error (.stringTooLong (Text.Utf8.bytesOf value).length)
    else .ok ()
  | _ => .ok ()

/-- The items that are not refused. -/
def kept (items : List Item) : List Item :=
  items.filter fun item => item.outcome.isOk

variable {item : Item}

/-- The outcome and the bytes of an item are those of the encoding of its value. -/
theorem encode_cases (hexact : item.2.IsExact) :
    (item.outcome = .ok () ∧ item.2.encode item.1 = .ok item.bytes) ∨
    (∃ error, item.outcome = .error error ∧ item.2.encode item.1 = .error error ∧
      item.bytes = []) := by
  obtain ⟨order, value⟩ := item
  rw [bytes]
  cases hencode : value.encode order with
  | error error =>
    right
    obtain ⟨string, rfl, hlong, rfl⟩ := Value.encode_eq_error hexact hencode
    exact ⟨_, if_pos hlong, rfl, rfl⟩
  | ok data =>
    left
    refine ⟨?_, rfl⟩
    cases value with
    | text value =>
      rw [Value.encode] at hencode
      rw [outcome]
      split at hencode
      · cases hencode
      · rename_i hshort
        rw [if_neg hshort]
    | _ => rfl

end Item

/-- The bytes of a record. -/
def Item.encodings (items : List Item) : Bytes :=
  items.flatMap Item.bytes

/-- Items that are refused add no bytes. -/
theorem Item.encodings_kept {items : List Item} (hexact : ∀ item ∈ items, item.2.IsExact) :
    Item.encodings (Item.kept items) = Item.encodings items := by
  induction items with
  | nil => rfl
  | cons item items ih =>
    have hrest := ih fun other hin => hexact other (List.mem_cons_of_mem _ hin)
    rcases Item.encode_cases (hexact item List.mem_cons_self) with
      ⟨hok, _⟩ | ⟨error, herror, _, hnone⟩
    · have hkept : Item.kept (item :: items) = item :: Item.kept items :=
        List.filter_cons_of_pos (by rw [hok]; rfl)
      rw [hkept, Item.encodings, List.flatMap_cons]
      exact congrArg (item.bytes ++ ·) hrest
    · have hkept : Item.kept (item :: items) = Item.kept items :=
        List.filter_cons_of_neg (by rw [herror]; simp [Except.isOk, Except.toBool])
      rw [hkept, hrest]
      show Item.encodings items = item.bytes ++ Item.encodings items
      rw [hnone, List.nil_append]

/-- What is kept has an encoding. -/
theorem Item.encode_kept {items : List Item} (hexact : ∀ item ∈ items, item.2.IsExact) :
    ∀ item ∈ Item.kept items, item.2.IsExact ∧ item.2.encode item.1 = .ok item.bytes := by
  intro item hin
  obtain ⟨hin, hok⟩ := List.mem_filter.1 hin
  refine ⟨hexact item hin, ?_⟩
  rcases Item.encode_cases (hexact item hin) with ⟨_, hencode⟩ | ⟨error, herror, _⟩
  · exact hencode
  · simp [herror, Except.isOk, Except.toBool] at hok

/-! ## Writing -/

namespace Writer

/-- Sets the order of an item and writes its value; what is refused changes nothing. -/
def put (writer : Writer) (disk : Disk) (item : Item) : Except Error Unit × Writer × Disk :=
  match ({ writer with order := item.1 } : Writer).write disk item.2 with
  | .ok after => (.ok (), after)
  | .error error => (.error error, { writer with order := item.1 }, disk)

/-- Puts item after item, also after one that is refused. -/
def putAll (writer : Writer) (disk : Disk) :
    List Item → List (Except Error Unit) × Writer × Disk
  | [] => ([], writer, disk)
  | item :: items =>
    let (result, next, disk) := writer.put disk item
    let (results, last) := next.putAll disk items
    (result :: results, last)

/-- The writer over a memory stream that it has opened and that holds `data`. -/
def standing (uri : Uri) (data : Bytes) (order : ByteOrder) : Writer where
  stream := .memory { uri, mode := .write, data, position := data.length, isOpen := true }
  order
  openedStream := true
  isOpen := true

variable (disk : Disk) (uri : Uri) (data : Bytes) (order : ByteOrder)

theorem writeRaw_standing (bytes : Bytes) :
    (standing uri data order).writeRaw disk bytes
      = .ok (standing uri (data ++ bytes) order, disk) := by
  have hover : data.overwrite data.length bytes = data ++ bytes := by simp [Bytes.overwrite]
  have hlength : data.length + bytes.length = (data ++ bytes).length := by simp
  simp only [writeRaw, standing, Stream.write, MemoryStream.write, MemoryStream.writePosition]
  rw [← hlength, ← hover]
  rfl

theorem put_standing {item : Item} (hexact : item.2.IsExact) :
    (standing uri data order).put disk item
      = (item.outcome, standing uri (data ++ item.bytes) item.1, disk) := by
  have hset : { standing uri data order with order := item.1 } = standing uri data item.1 := rfl
  rcases Item.encode_cases hexact with ⟨hok, hencode⟩ | ⟨error, herror, hencode, hnone⟩
  · simp only [put, hset, write, hencode, writeRaw_standing, hok]
  · simp only [put, hset, write, hencode, herror, hnone, List.append_nil]

/-- A writer answers a whole record item by item, and has added the bytes of all. -/
theorem putAll_standing {items : List Item} (hexact : ∀ item ∈ items, item.2.IsExact) :
    ∃ last, (standing uri data order).putAll disk items
      = (items.map Item.outcome, standing uri (data ++ Item.encodings items) last, disk) := by
  induction items generalizing data order with
  | nil => exact ⟨order, by simp [putAll, Item.encodings]⟩
  | cons item items ih =>
    have hhead := put_standing disk uri data order (hexact item List.mem_cons_self)
    obtain ⟨last, htail⟩ := ih (data ++ item.bytes) item.1 fun other hin =>
      hexact other (List.mem_cons_of_mem _ hin)
    refine ⟨last, ?_⟩
    rw [putAll, hhead]
    simp only [htail, List.append_assoc]
    rfl

end Writer

/-! ## Reading -/

namespace Cursor

variable {data rest bytes : Bytes} {cursor : Cursor}

/-- Bytes that stand at a cursor are taken from there. -/
theorem take_append (hwithin : cursor.position ≤ data.length)
    (hdata : data.drop cursor.position = bytes ++ rest) :
    cursor.take data bytes.length
      = .ok (bytes, { cursor with position := cursor.position + bytes.length }) := by
  have hlength := congrArg List.length hdata
  rw [List.length_drop, List.length_append] at hlength
  rw [take, if_neg (by omega), hdata, List.take_left]

theorem drop_append (hdata : data.drop cursor.position = bytes ++ rest) :
    data.drop (cursor.position + bytes.length) = rest := by
  rw [← List.drop_drop, hdata, List.drop_left]

/-- The bytes of a value at a cursor are read as that value. -/
theorem read_encode {value : Value} (hexact : value.IsExact)
    (hencode : value.encode cursor.order = .ok bytes) (hwithin : cursor.position ≤ data.length)
    (hdata : data.drop cursor.position = bytes ++ rest) :
    cursor.read data value.shape
      = .ok (value, { cursor with position := cursor.position + bytes.length }) := by
  rw [read]
  cases hcounted : value.shape.isCounted with
  | false =>
    obtain ⟨hwidth, hdecode⟩ := Value.encode_plain hexact hcounted hencode
    have hbytes : cursor.readBytes data value.shape
        = .ok (bytes, { cursor with position := cursor.position + bytes.length }) := by
      rw [readBytes, ← hwidth, take_append hwithin hdata, hcounted]
      rfl
    rw [hbytes]
    show (value.shape.decode cursor.order bytes >>= fun value => _) = _
    rw [hdecode]
    rfl
  | true =>
    obtain ⟨head, rfl, hwidth, hcount, hdecode⟩ := Value.encode_counted hcounted hencode
    -- the length field first, and then as many bytes as it counts
    rw [List.append_assoc] at hdata
    have hhead := take_append hwithin hdata
    have hnext := (take_ok hhead).2.2
    have hpayload := take_append hnext (drop_append hdata)
    have hbytes : cursor.readBytes data value.shape = .ok (value.payload,
        { cursor with position := cursor.position + (head ++ value.payload).length }) := by
      rw [readBytes, ← hwidth, hhead, hcounted, List.length_append, ← Nat.add_assoc]
      show take data _ (cursor.order.ofBytes head) = _
      rw [hcount]
      exact hpayload
    rw [hbytes]
    show (value.shape.decode cursor.order value.payload >>= fun value => _) = _
    rw [hdecode]
    rfl

end Cursor

namespace Item

/-- The steps that read a record back, with a look at the end before each value and
after the last one. -/
def readSteps : List Item → List Reader.Step
  | [] => [.atEnd]
  | item :: items => .setOrder item.1 :: .atEnd :: .read item.2.shape :: readSteps items

/-- The answers to these steps: every value as it was written, and the end where no
bytes are left to read. -/
def readAnswers : List Item → List (Except Error Reader.Answer)
  | [] => [.ok (.flag true)]
  | item :: items =>
    .ok .done :: .ok (.flag (encodings (item :: items)).isEmpty) :: .ok (.value item.2)
      :: readAnswers items

end Item

/-- A cursor at the bytes of a record gives the answers of the record. -/
theorem Cursor.run_encodings {data : Bytes} {cursor : Cursor} {items : List Item}
    (hwithin : cursor.position ≤ data.length)
    (hdata : data.drop cursor.position = Item.encodings items)
    (hitems : ∀ item ∈ items, item.2.IsExact ∧ item.2.encode item.1 = .ok item.bytes) :
    (cursor.run data (Item.readSteps items)).1 = Item.readAnswers items := by
  have hend (cursor : Cursor) (left : Bytes) (hleft : data.drop cursor.position = left) :
      decide (data.length ≤ cursor.position) = left.isEmpty := by
    rw [← hleft, Bool.eq_iff_iff, decide_eq_true_iff, List.isEmpty_iff, List.drop_eq_nil_iff]
  induction items generalizing cursor with
  | nil =>
    show [Except.ok (Reader.Answer.flag (decide (data.length ≤ cursor.position)))] = _
    rw [hend cursor [] hdata]
    rfl
  | cons item items ih =>
    obtain ⟨hexact, hencode⟩ := hitems item List.mem_cons_self
    generalize hset : ({ cursor with order := item.1 } : Cursor) = start
    have horder : start.order = item.1 := hset ▸ rfl
    have hposition : start.position = cursor.position := hset ▸ rfl
    rw [← hposition] at hwithin hdata
    have hread := read_encode hexact (horder.symm ▸ hencode) hwithin hdata
    generalize hnext : ({ start with position := start.position + item.bytes.length } : Cursor)
      = next at hread
    have hrest : data.drop next.position = Item.encodings items := by
      rw [← hnext]
      exact drop_append hdata
    have htail := ih (read_ok hread).2.1 hrest fun other hin =>
      hitems other (List.mem_cons_of_mem _ hin)
    have hflag := hend start _ hdata
    show (run data cursor (.setOrder item.1 :: .atEnd :: .read item.2.shape :: _)).1 = _
    simp only [run, perform, hset, hread, hflag, htail, Except.map]
    rfl

/-- Whatever values are written over a closed memory stream, with whatever byte orders,
only strings that are too long are refused, and a reader gets all the others back, with
mapping or without, and finds the end where no bytes are left. -/
theorem record_round_trip {disk : Disk} {stream : MemoryStream} {items : List Item}
    (mounts : Mounts) (wantsView : Bool)
    (hreached : (Stream.memory stream).Reached disk) (hclosed : stream.isOpen = false)
    (hexact : ∀ item ∈ items, item.2.IsExact) :
    let opened := ({ stream := .memory stream } : Writer).tryOpen mounts disk
    let written := opened.2.1.putAll opened.2.2 items
    let stored := written.2.1.close.stream
    let reader := ({ stream := stored, wantsView } : Reader).tryOpen mounts written.2.2
    opened.1 = .ok () ∧
    written.1 = items.map Item.outcome ∧
    stored.isOpen = false ∧
    stored.contents written.2.2 = Item.encodings (Item.kept items) ∧
    reader.1 = .ok () ∧ reader.2.isMapped = wantsView ∧
    (reader.2.run written.2.2 (Item.readSteps (Item.kept items))).1
      = Item.readAnswers (Item.kept items) := by
  intro opened written stored reader
  obtain ⟨uri, mode, data, position, isOpen, isMapped⟩ := stream
  obtain rfl : isOpen = false := hclosed
  obtain ⟨_, rfl⟩ : position = 0 ∧ isMapped = false := hreached.settled.closed rfl
  have hopened : opened = (.ok (), Writer.standing uri [] .host, disk) := rfl
  obtain ⟨last, hput⟩ := Writer.putAll_standing disk uri [] .host hexact
  have hwritten : written = (items.map Item.outcome,
      Writer.standing uri (Item.encodings items) last, disk) := hput
  have hstored : stored = .memory { uri, mode := .write, data := Item.encodings items } := by
    show written.2.1.close.stream = _
    rw [hwritten]
    rfl
  have hdisk : written.2.2 = disk := by rw [hwritten]
  have hback : stored.Reached disk := by
    rw [hstored]
    exact .perform (.memory disk uri (Item.encodings items)) mounts (.setMode .write) rfl
  have hreadable : stored.IsReadable disk := by
    rw [hstored]
    nofun
  have hcontents : stored.contents disk = Item.encodings (Item.kept items) := by
    rw [hstored, Item.encodings_kept hexact]
    rfl
  obtain ⟨base, hserves, _, hclosed, hstreamed, hmapped⟩ :=
    Reader.tryOpen_readable mounts .host hback hreadable
  have hshut : stored.isOpen = false := by rw [hstored]; rfl
  obtain ⟨hposition, _⟩ := hclosed hshut
  rw [hcontents] at hserves hmapped
  -- either reader follows a cursor at the start of the bytes
  generalize hstart : ({ order := .host, position := base.position } : Cursor) = start
    at hstreamed hmapped
  have hzero : start.position = 0 := by rw [← hstart, hposition]
  have hwithin : start.position ≤ (Item.encodings (Item.kept items)).length := by
    rw [hzero]
    exact Nat.zero_le _
  have hall : List.drop start.position (Item.encodings (Item.kept items))
      = Item.encodings (Item.kept items) := by rw [hzero, List.drop_zero]
  have hanswers := Cursor.run_encodings hwithin hall (Item.encode_kept hexact)
  rw [hdisk, hcontents]
  refine ⟨by rw [hopened], by rw [hwritten], hshut, rfl, ?_⟩
  cases wantsView with
  | false =>
    have hreader : reader = _ := hdisk ▸ hstreamed
    rw [hreader, ← hanswers]
    exact ⟨rfl, rfl, ((Reader.follows_streaming hserves _).run hwithin _).1⟩
  | true =>
    have hreader : reader = _ := hdisk ▸ hmapped
    rw [hreader, ← hanswers]
    exact ⟨rfl, rfl, ((Reader.follows_viewing hserves _).run hwithin _).1⟩

/-- A word, a string and no bytes, over a stream that held something else. -/
theorem record_round_trip_mixed :
    let stream : MemoryStream := .ofBytes [9]
    let items : List Item := [(.big, .uint16 258), (.little, .text "hi"), (.big, .raw [])]
    (Stream.memory stream).Reached .blank ∧ stream.isOpen = false ∧
    (∀ item ∈ items, item.2.IsExact) ∧
    ((({ stream := .memory stream } : Writer).tryOpen {} .blank).2.1.putAll .blank
      items).2.1.close.stream.contents .blank = [1, 2, 2, 0, 104, 105] := by
  intro stream items
  have hreached : (Stream.memory stream).Reached .blank :=
    .memory .blank MemoryStream.anonymous [9]
  have hexact : ∀ item ∈ items, item.2.IsExact := by simp [items, Value.IsExact]
  obtain ⟨_, _, _, hstored, _⟩ := record_round_trip {} true hreached rfl hexact
  exact ⟨hreached, rfl, hexact, hstored.trans (by decide)⟩

end ArchiveVfs
