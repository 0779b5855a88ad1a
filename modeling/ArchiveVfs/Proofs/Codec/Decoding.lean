import ArchiveVfs.Proofs.Codec.Records

/-!
# Values and the bytes they were read from

Bytes that were not written by a writer are read too. Apart from truth values and packed floats,
the values then determine them: what a sequence of reads passes over are the bytes of the
values (`Cursor.run_fields`, the converse of `Cursor.run_record`), so that a writer gives
them back, no other bytes are read as the same values, and the bytes behind them do not matter
(`rewritten_eq_read`).
-/

namespace ArchiveVfs

/-- What is to be read, and the byte order that is set before. -/
abbrev Field := ByteOrder × Shape

/-- The steps that read fields. -/
def Field.steps (fields : List Field) : List Reader.Step :=
  fields.flatMap fun field => [.setOrder field.1, .read field.2]

namespace Item

/-- What an item is read as. -/
def field (item : Item) : Field :=
  (item.1, item.2.shape)

/-- The answers to the steps that read items. -/
def answers (items : List Item) : List (Except Error Reader.Answer) :=
  items.flatMap fun item => [.ok .done, .ok (.value item.2)]

theorem isOk_of_mem_answers {items : List Item} :
    ∀ outcome ∈ answers items, outcome.isOk := by
  intro outcome hin
  obtain ⟨item, _, hin⟩ := List.mem_flatMap.1 hin
  simp only [List.mem_cons, List.not_mem_nil, or_false] at hin
  rcases hin with rfl | rfl
  · rfl
  · rfl

/-- Fields and answers determine the items. -/
theorem eq_of_answers {items others : List Item} (hfields : items.map field = others.map field)
    (hanswers : answers items = answers others) : items = others := by
  induction items generalizing others with
  | nil =>
    obtain rfl : others = [] := by simpa [eq_comm] using hfields
    rfl
  | cons item items ih =>
    cases others with
    | nil => cases hfields
    | cons other others =>
      obtain ⟨hfield, hrest⟩ := List.cons.inj hfields
      obtain ⟨horder, _⟩ := Prod.mk.inj hfield
      obtain ⟨hvalue, hmore⟩ : item.2 = other.2 ∧ answers items = answers others := by
        simpa [answers] using hanswers
      rw [ih hrest hmore, Prod.ext horder hvalue]

end Item

namespace Cursor

variable {data : Bytes} {cursor next : Cursor}

/-- What is taken stands between the cursor and the one behind it. -/
theorem drop_of_take {count : Nat} {bytes : Bytes}
    (h : cursor.take data count = .ok (bytes, next)) :
    data.drop cursor.position = bytes ++ data.drop next.position := by
  have hnext := (take_ok h).1
  rw [take] at h
  split at h
  · cases h
  · obtain ⟨hbytes, _⟩ := Prod.mk.inj (Except.ok.inj h)
    rw [hnext, ← hbytes, ← List.drop_drop, List.take_append_drop]

/-- A value that is read is written as the bytes that are passed over. -/
theorem encode_of_read {shape : Shape} {value : Value} (hexact : shape.IsExact)
    (h : cursor.read data shape = .ok (value, next)) :
    value.IsExact ∧ ∃ bytes, value.encode cursor.order = .ok bytes ∧
      data.drop cursor.position = bytes ++ data.drop next.position := by
  rw [read, readBytes] at h
  obtain ⟨⟨bytes, behind⟩, hbytes, h⟩ := Outcome.bind_eq_ok.1 h
  obtain ⟨found, hdecode, h⟩ := Outcome.bind_eq_ok.1 h
  obtain ⟨rfl, rfl⟩ := Prod.mk.inj (Except.ok.inj h)
  obtain ⟨⟨head, middle⟩, hhead, hbytes⟩ := Outcome.bind_eq_ok.1 hbytes
  have hlength := (take_ok hhead).2.1
  cases hcounted : shape.isCounted with
  | false =>
    simp only [hcounted] at hbytes
    obtain ⟨rfl, rfl⟩ := Prod.mk.inj (Except.ok.inj hbytes)
    obtain ⟨hvalue, hencode⟩ := Shape.encode_of_plain hexact hcounted hlength hdecode
    exact ⟨hvalue, _, hencode, drop_of_take hhead⟩
  | true =>
    simp only [hcounted] at hbytes
    have hcount := (take_ok hbytes).2.1
    obtain ⟨hvalue, hencode⟩ := Shape.encode_of_counted hcounted hlength hcount hdecode
    refine ⟨hvalue, _, hencode, ?_⟩
    rw [drop_of_take hhead, drop_of_take hbytes, List.append_assoc]

section Fields

variable {field : Field} {fields : List Field}

/-- A field is read after its order has been set, and the other fields behind it. -/
theorem run_field {value : Value}
    (hread : ({ cursor with order := field.1 } : Cursor).read data field.2 = .ok (value, next)) :
    cursor.run data (Field.steps (field :: fields)) =
      (.ok .done :: .ok (.value value) :: (next.run data (Field.steps fields)).1,
        (next.run data (Field.steps fields)).2) := by
  show cursor.run data (.setOrder field.1 :: .read field.2 :: Field.steps fields) = _
  simp only [run, perform, hread, Except.map]

theorem run_field_error {error : Error}
    (hread : ({ cursor with order := field.1 } : Cursor).read data field.2 = .error error) :
    (cursor.run data (Field.steps (field :: fields))).1 = [.ok .done, .error error] := by
  show (cursor.run data (.setOrder field.1 :: .read field.2 :: Field.steps fields)).1 = _
  simp only [run, perform, hread, Except.map]

/-- Fields that are all read give items, and pass over the bytes of these. -/
theorem run_fields (hexact : ∀ field ∈ fields, field.2.IsExact)
    (hok : ∀ outcome ∈ (cursor.run data (Field.steps fields)).1, outcome.isOk) :
    ∃ items : List Item, items.map Item.field = fields ∧
      (∀ item ∈ items, item.2.IsExact ∧ item.2.encode item.1 = .ok item.bytes) ∧
      (cursor.run data (Field.steps fields)).1 = Item.answers items ∧
      data.drop cursor.position = Item.encodings items
        ++ data.drop (cursor.run data (Field.steps fields)).2.position := by
  induction fields generalizing cursor with
  | nil => exact ⟨[], rfl, by simp, rfl, rfl⟩
  | cons field fields ih =>
    cases hread : ({ cursor with order := field.1 } : Cursor).read data field.2 with
    | error error =>
      rw [run_field_error hread] at hok
      simp [Except.isOk, Except.toBool] at hok
    | ok found =>
      obtain ⟨value, next⟩ := found
      rw [run_field hread] at hok ⊢
      obtain ⟨hvalue, bytes, hencode, hdata⟩ :=
        encode_of_read (hexact field List.mem_cons_self) hread
      have hshape := (read_ok hread).2.2.1
      have hitem : value.encode field.1 = .ok (Item.bytes (field.1, value)) ∧
          Item.bytes (field.1, value) = bytes := by
        have hbytes : Item.bytes (field.1, value) = bytes := by
          show (value.encode field.1).toOption.getD [] = bytes
          rw [show value.encode field.1 = .ok bytes from hencode]
          rfl
        exact ⟨hbytes ▸ hencode, hbytes⟩
      obtain ⟨items, hfields, hitems, hanswers, hrest⟩ := @ih next
        (fun other hin => hexact other (List.mem_cons_of_mem _ hin))
        (fun outcome hin => hok outcome
          (List.mem_cons_of_mem _ (List.mem_cons_of_mem _ hin)))
      refine ⟨(field.1, value) :: items, ?_, ?_, ?_, ?_⟩
      · rw [List.map_cons, hfields, Item.field, hshape]
      · intro item hin
        rcases List.mem_cons.1 hin with rfl | hin
        · exact ⟨hvalue, hitem.1⟩
        · exact hitems item hin
      · rw [hanswers]
        rfl
      · show data.drop cursor.position = (Item.bytes (field.1, value) ++ Item.encodings items) ++ _
        rw [hitem.2, List.append_assoc, ← hrest]
        exact hdata

/-- At the bytes of items their fields are read as the items. -/
theorem run_record {items : List Item} {rest : Bytes} (hwithin : cursor.position ≤ data.length)
    (hitems : ∀ item ∈ items, item.2.IsExact ∧ item.2.encode item.1 = .ok item.bytes)
    (hdata : data.drop cursor.position = Item.encodings items ++ rest) :
    (cursor.run data (Field.steps (items.map Item.field))).1 = Item.answers items := by
  induction items generalizing cursor with
  | nil => rfl
  | cons item items ih =>
    obtain ⟨hexact, hencode⟩ := hitems item List.mem_cons_self
    rw [Item.encodings, List.flatMap_cons, List.append_assoc] at hdata
    have hread : ({ cursor with order := item.1 } : Cursor).read data item.field.2 = .ok (item.2,
        { order := item.1, position := cursor.position + item.bytes.length }) :=
      read_encode hexact hencode hwithin hdata
    have htail := ih (read_ok hread).2.1
      (fun other hin => hitems other (List.mem_cons_of_mem _ hin)) (drop_append hdata)
    rw [List.map_cons, run_field hread, htail]
    rfl

end Fields

end Cursor

/-- A record is written whole over a closed memory stream, and is what the stream then holds. -/
theorem Writer.write_record {disk : Disk} {target : MemoryStream} {items : List Item}
    (mounts : Mounts) (hreached : (Stream.memory target).Reached disk)
    (hclosed : target.isOpen = false)
    (hitems : ∀ item ∈ items, item.2.IsExact ∧ item.2.encode item.1 = .ok item.bytes) :
    let opened := ({ stream := .memory target } : Writer).tryOpen mounts disk
    let written := opened.2.1.putAll opened.2.2 items
    opened.1 = .ok () ∧ written.1 = items.map (fun _ => .ok ()) ∧
      written.2.1.close.stream.contents written.2.2 = Item.encodings items := by
  intro opened written
  obtain ⟨uri, mode, data, position, isOpen, isMapped⟩ := target
  obtain rfl : isOpen = false := hclosed
  obtain ⟨_, rfl⟩ : position = 0 ∧ isMapped = false := hreached.settled.closed rfl
  have hopened : opened = (.ok (), standing uri [] .host, disk) := rfl
  obtain ⟨last, hput⟩ := putAll_standing disk uri [] .host fun item hin => (hitems item hin).1
  have hwritten : written = (items.map Item.outcome, standing uri (Item.encodings items) last,
      disk) := hput
  have houtcomes : items.map Item.outcome = items.map (fun _ => .ok ()) := by
    apply List.map_congr_left
    intro item hin
    obtain ⟨hexact, hencode⟩ := hitems item hin
    rcases Item.encode_cases hexact with ⟨hok, _⟩ | ⟨error, _, herror, _⟩
    · exact hok
    · rw [hencode] at herror
      cases herror
  rw [hopened, hwritten, houtcomes]
  exact ⟨rfl, rfl, rfl⟩

namespace Reader

/-- A reader that follows a cursor gives items for fields that are all read; their bytes are what
it passes over, and what another reader must find to give the same answers. -/
theorem Follows.run_fields {disk : Disk} {data : Bytes} {place : Cursor → Reader} {start : Cursor}
    {fields : List Field} (h : Follows disk data place) (hwithin : start.position ≤ data.length)
    (hplace : ∀ cursor, (place cursor).position = cursor.position)
    (hexact : ∀ field ∈ fields, field.2.IsExact)
    (hok : ∀ outcome ∈ ((place start).run disk (Field.steps fields)).1, outcome.isOk) :
    let result := (place start).run disk (Field.steps fields)
    ∃ items : List Item, items.map Item.field = fields ∧
      (∀ item ∈ items, item.2.IsExact ∧ item.2.encode item.1 = .ok item.bytes) ∧
      result.1 = Item.answers items ∧
      (place start).position ≤ result.2.position ∧ result.2.position ≤ data.length ∧
      Item.encodings items = data.extract (place start).position result.2.position ∧
      Item.encodings items <+: data.drop (place start).position := by
  intro result
  obtain ⟨hanswers, hlast⟩ := h.run hwithin (Field.steps fields)
  rw [hanswers] at hok
  obtain ⟨hreached, hconsumed⟩ := Cursor.run_position hwithin (Field.steps fields)
  obtain ⟨items, hfields, hitems, hcursor, hdata⟩ := Cursor.run_fields hexact hok
  have hposition : result.2.position = (start.run data (Field.steps fields)).2.position := by
    show ((place start).run disk (Field.steps fields)).2.position = _
    rw [hlast hok, hplace]
  rw [hposition, hplace]
  refine ⟨items, hfields, hitems, hanswers.trans hcursor, by omega, hreached, ?_, ?_⟩
  · have hlength := congrArg List.length hdata
    rw [List.length_append, List.length_drop, List.length_drop] at hlength
    rw [List.extract_eq_take_drop, hdata]
    rw [show (start.run data (Field.steps fields)).2.position - start.position
      = (Item.encodings items).length by omega, List.take_left]
  · exact ⟨_, hdata.symm⟩

/-- It gives the answers of items exactly if it finds their bytes, and then passes over them. -/
theorem Follows.run_eq_answers {disk : Disk} {data : Bytes} {place : Cursor → Reader}
    {start : Cursor} {items : List Item} (h : Follows disk data place)
    (hwithin : start.position ≤ data.length)
    (hplace : ∀ cursor, (place cursor).position = cursor.position)
    (hexact : ∀ field ∈ items.map Item.field, field.2.IsExact)
    (hitems : ∀ item ∈ items, item.2.IsExact ∧ item.2.encode item.1 = .ok item.bytes) :
    let result := (place start).run disk (Field.steps (items.map Item.field))
    (result.1 = Item.answers items ↔
      Item.encodings items <+: data.drop (place start).position) ∧
    (result.1 = Item.answers items →
      data.extract (place start).position result.2.position = Item.encodings items) := by
  intro result
  have hsame (hanswers : result.1 = Item.answers items) :
      Item.encodings items <+: data.drop (place start).position ∧
        data.extract (place start).position result.2.position = Item.encodings items := by
    have hok : ∀ outcome ∈ result.1, outcome.isOk := by
      rw [hanswers]
      exact Item.isOk_of_mem_answers
    obtain ⟨others, hfields, _, hothers, _, _, hextract, hbegins⟩ :=
      h.run_fields hwithin hplace hexact hok
    obtain rfl := Item.eq_of_answers hfields (hothers.symm.trans hanswers)
    exact ⟨hbegins, hextract.symm⟩
  refine ⟨⟨fun hanswers => (hsame hanswers).1, ?_⟩, fun hanswers => (hsame hanswers).2⟩
  rintro ⟨rest, hrest⟩
  rw [hplace] at hrest
  exact (h.run hwithin _).1.trans (Cursor.run_record hwithin hitems hrest.symm)

/-- Bytes that are read, apart from truth values and packed floats, are written again as they
are: whenever all reads succeed, a writer turns the values, with the same byte orders, into
the bytes that the reads passed over. Another reader, over whatever stream, gives the same answers
exactly if it finds these bytes, and then passes over them too. -/
theorem rewritten_eq_read {disk : Disk} {stream : Stream} {fields : List Field} (mounts : Mounts)
    (order : ByteOrder) (wantsView : Bool) (hreached : stream.Reached disk)
    (hreadable : stream.IsReadable disk) (hexact : ∀ field ∈ fields, field.2.IsExact) :
    let opened := ({ stream, order, wantsView } : Reader).tryOpen mounts disk
    let result := opened.2.run disk (Field.steps fields)
    let passed := (stream.contents disk).extract opened.2.position result.2.position
    opened.1 = .ok () ∧
    ((∀ outcome ∈ result.1, outcome.isOk) →
      opened.2.position ≤ result.2.position ∧
      result.2.position ≤ (stream.contents disk).length ∧
      ∃ items : List Item, items.map Item.field = fields ∧ result.1 = Item.answers items ∧
        (∀ target : MemoryStream,
          (Stream.memory target).Reached disk → target.isOpen = false →
          let writer := ({ stream := .memory target } : Writer).tryOpen mounts disk
          let written := writer.2.1.putAll writer.2.2 items
          writer.1 = .ok () ∧ written.1 = items.map (fun _ => .ok ()) ∧
          written.2.1.close.stream.contents written.2.2 = passed) ∧
        ∀ (otherDisk : Disk) (other : Stream) (otherOrder : ByteOrder) (otherView : Bool),
          other.Reached otherDisk → other.IsReadable otherDisk →
          let reader := (({ stream := other, order := otherOrder, wantsView := otherView } :
            Reader).tryOpen mounts otherDisk).2
          let again := reader.run otherDisk (Field.steps fields)
          (again.1 = result.1 ↔ passed <+: (other.contents otherDisk).drop reader.position) ∧
          (again.1 = result.1 →
            (other.contents otherDisk).extract reader.position again.2.position = passed)) := by
  intro opened result passed
  obtain ⟨place, start, hopened, hfollows, hplace, hwithin⟩ :=
    tryOpen_follows mounts order wantsView hreached hreadable
  have hopened : opened = (.ok (), place start) := hopened
  refine ⟨by rw [hopened], ?_⟩
  intro hok
  have hresult : result = (place start).run disk (Field.steps fields) := by
    show opened.2.run disk (Field.steps fields) = _
    rw [hopened]
  have hstart : opened.2 = place start := by rw [hopened]
  rw [hresult] at hok
  obtain ⟨items, hfields, hitems, hanswers, hle, hend, hencodings, _⟩ :=
    hfollows.run_fields hwithin hplace hexact hok
  rw [← hresult] at hanswers hle hend hencodings
  rw [← hstart] at hle hencodings
  have hpassed : passed = Item.encodings items := hencodings.symm
  refine ⟨hle, hend, items, hfields, hanswers, ?_, ?_⟩
  · intro target htarget hclosed
    rw [hpassed]
    exact Writer.write_record mounts htarget hclosed hitems
  intro otherDisk other otherOrder otherView hother hotherReadable reader again
  obtain ⟨otherPlace, otherStart, hotherOpened, hotherFollows, hotherPlace, hotherWithin⟩ :=
    tryOpen_follows mounts otherOrder otherView hother hotherReadable
  have hreader : reader = otherPlace otherStart := congrArg Prod.snd hotherOpened
  have hagain : again
      = (otherPlace otherStart).run otherDisk (Field.steps (items.map Item.field)) := by
    show reader.run otherDisk (Field.steps fields) = _
    rw [hreader, hfields]
  rw [hpassed, hreader, hagain, hanswers]
  rw [← hfields] at hexact
  exact hotherFollows.run_eq_answers hotherWithin hotherPlace hexact hitems

/-- A blob and a word, read behind the first byte of a stream and written over another one. -/
theorem rewritten_eq_read_behind :
    let stream : Stream := .memory
      { uri := MemoryStream.anonymous, data := [9, 0, 0, 0, 1, 104, 5, 6, 7], position := 1,
        isOpen := true }
    let fields : List Field := [(.big, .blob), (.little, .uint16)]
    let items : List Item := [(.big, .blob [104]), (.little, .uint16 1541)]
    stream.Reached .blank ∧ stream.IsReadable .blank ∧
    (∀ field ∈ fields, field.2.IsExact) ∧
    ((({ stream, wantsView := true } : Reader).tryOpen {} .blank).2.run .blank
      (Field.steps fields)).1 = Item.answers items ∧
    ((({ stream := .memory (.ofBytes []) } : Writer).tryOpen {} .blank).2.1.putAll .blank
      items).2.1.close.stream.contents .blank = [0, 0, 0, 1, 104, 5, 6] := by
  intro stream fields items
  have hreached : stream.Reached .blank :=
    .perform (.perform (.memory .blank MemoryStream.anonymous [9, 0, 0, 0, 1, 104, 5, 6, 7]) {}
      .tryOpen trivial) {} (.read 1) trivial
  have hreadable : stream.IsReadable .blank := fun _ => ⟨rfl, rfl⟩
  have hexact : ∀ field ∈ fields, field.2.IsExact := by simp [fields, Shape.IsExact]
  have hanswers : ((({ stream, wantsView := true } : Reader).tryOpen {} .blank).2.run .blank
      (Field.steps fields)).1 = Item.answers items := rfl
  obtain ⟨_, hrewritten⟩ := rewritten_eq_read {} .host true hreached hreadable hexact
  have hok : ∀ outcome ∈ ((({ stream, wantsView := true } : Reader).tryOpen {} .blank).2.run
      .blank (Field.steps fields)).1, outcome.isOk := by
    rw [hanswers]
    exact Item.isOk_of_mem_answers
  obtain ⟨_, _, found, hfields, hfound, hwrite, _⟩ := hrewritten hok
  obtain rfl : found = items := Item.eq_of_answers hfields (hfound.symm.trans hanswers)
  obtain ⟨_, _, hstored⟩ := hwrite (.ofBytes []) (.memory .blank MemoryStream.anonymous []) rfl
  exact ⟨hreached, hreadable, hexact, hanswers, hstored.trans (by decide +kernel)⟩

end Reader

end ArchiveVfs
