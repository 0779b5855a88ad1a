import Mathlib.Algebra.GroupWithZero.Nat
import ArchiveVfs.Codec.Reader
import ArchiveVfs.Proofs.Codec.Value
import ArchiveVfs.Proofs.Outcome

/-!
# Reading at a cursor

A cursor is a place in bytes that do not change. `Cursor.run` says what steps of reading
give from there, without streams, views or a disk. A reader `Follows` a cursor if it
finds the same bytes, the same number of bytes left and the same end at every place; it
then answers all steps as the cursor does (`Follows.run`).
-/

namespace ArchiveVfs

/-- A place in bytes, and the order in which numbers are read there. -/
structure Cursor where
  /-- The order of the bytes of a number. -/
  order : ByteOrder := .host
  /-- The number of bytes before the place. -/
  position : Nat := 0

namespace Reader

/-- A step of reading. -/
inductive Step where
  | setOrder (order : ByteOrder)
  | atEnd
  | read (shape : Shape)

/-- What a step that succeeds answers. -/
inductive Answer where
  | done
  | flag (value : Bool)
  | value (value : Value)

/-- The number of bytes that an answer was read from. -/
def Answer.size : Answer → Nat
  | .done | .flag _ => 0
  | .value found => found.size

/-- The outcome of a step, and the reader after it. -/
def perform (reader : Reader) (disk : Disk) : Step → Except Error Answer × Reader
  | .setOrder order => (.ok .done, { reader with order })
  | .atEnd => (.ok (.flag reader.atEnd), reader)
  | .read shape =>
    let (result, next) := reader.read disk shape
    (result.map .value, next)

/-- The outcomes of steps up to the first one that fails, and the reader after it. -/
def run (reader : Reader) (disk : Disk) : List Step → List (Except Error Answer) × Reader
  | [] => ([], reader)
  | step :: steps =>
    match reader.perform disk step with
    | (.error error, next) => ([.error error], next)
    | (.ok answer, next) =>
      let (answers, last) := next.run disk steps
      (.ok answer :: answers, last)

/-- The number of bytes that the steps that succeeded have read. -/
def consumed (answers : List (Except Error Answer)) : Nat :=
  (answers.map fun answer => (answer.toOption.map (·.size)).getD 0).sum

end Reader

namespace Cursor

variable (data : Bytes)

/-- The next `count` bytes, and the cursor behind them. -/
def take (cursor : Cursor) (count : Nat) : Except Error (Bytes × Cursor) :=
  if data.length < cursor.position + count then
    .error (.outOfBounds count (data.length - cursor.position))
  else
    .ok ((data.drop cursor.position).take count,
      { cursor with position := cursor.position + count })

/-- The bytes of a value, without the length field that counts them. -/
def readBytes (cursor : Cursor) (shape : Shape) : Except Error (Bytes × Cursor) := do
  let (head, next) ← cursor.take data shape.width
  if shape.isCounted then next.take data (cursor.order.ofBytes head) else return (head, next)

/-- A value, and the cursor behind it. -/
def read (cursor : Cursor) (shape : Shape) : Except Error (Value × Cursor) := do
  let (bytes, next) ← cursor.readBytes data shape
  let value ← shape.decode cursor.order bytes
  return (value, next)

/-- The answer to a step, and the cursor after it. -/
def perform (cursor : Cursor) : Reader.Step → Except Error (Reader.Answer × Cursor)
  | .setOrder order => .ok (.done, { cursor with order })
  | .atEnd => .ok (.flag (data.length ≤ cursor.position), cursor)
  | .read shape => (cursor.read data shape).map fun found => (.value found.1, found.2)

/-- The outcomes of steps up to the first one that fails, and the cursor that the steps
before it have reached. -/
def run (cursor : Cursor) : List Reader.Step → List (Except Error Reader.Answer) × Cursor
  | [] => ([], cursor)
  | step :: steps =>
    match cursor.perform data step with
    | .error error => ([.error error], cursor)
    | .ok (answer, next) =>
      let (answers, last) := next.run steps
      (.ok answer :: answers, last)

variable {data} {cursor next : Cursor}

theorem take_ok {count : Nat} {bytes : Bytes} (h : cursor.take data count = .ok (bytes, next)) :
    next = { cursor with position := cursor.position + count } ∧ bytes.length = count ∧
      next.position ≤ data.length := by
  rw [take] at h
  split at h
  · cases h
  · rename_i hwithin
    obtain ⟨rfl, rfl⟩ := Prod.mk.inj (Except.ok.inj h)
    refine ⟨rfl, ?_, Nat.le_of_not_lt hwithin⟩
    rw [List.length_take, List.length_drop]
    omega

/-- The bytes of a value, and how many were passed over to have them. -/
theorem readBytes_ok {shape : Shape} {bytes : Bytes}
    (h : cursor.readBytes data shape = .ok (bytes, next)) :
    next.order = cursor.order ∧ next.position ≤ data.length ∧
      (shape.isCounted = false → bytes.length = shape.width) ∧
      next.position = cursor.position + shape.width +
        if shape.isCounted then bytes.length else 0 := by
  rw [readBytes] at h
  obtain ⟨⟨head, middle⟩, hhead, h⟩ := Outcome.bind_eq_ok.1 h
  obtain ⟨rfl, hlength, hwithin⟩ := take_ok hhead
  cases hcounted : shape.isCounted with
  | false =>
    simp only [hcounted] at h
    obtain ⟨rfl, rfl⟩ := Prod.mk.inj (Except.ok.inj h)
    exact ⟨rfl, hwithin, fun _ => hlength, rfl⟩
  | true =>
    simp only [hcounted] at h
    obtain ⟨rfl, hbytes, hwithin⟩ := take_ok h
    exact ⟨rfl, hwithin, by simp, by rw [hbytes]; rfl⟩

/-- A value that is read has as many bytes as are passed over. -/
theorem read_ok {shape : Shape} {value : Value} (h : cursor.read data shape = .ok (value, next)) :
    next.order = cursor.order ∧ next.position ≤ data.length ∧ value.shape = shape ∧
      next.position = cursor.position + value.size := by
  rw [read] at h
  obtain ⟨⟨bytes, middle⟩, hbytes, h⟩ := Outcome.bind_eq_ok.1 h
  obtain ⟨found, hdecode, h⟩ := Outcome.bind_eq_ok.1 h
  obtain ⟨rfl, rfl⟩ := Prod.mk.inj (Except.ok.inj h)
  obtain ⟨horder, hwithin, hplain, hposition⟩ := readBytes_ok hbytes
  obtain ⟨hshape, hpayload⟩ := Shape.of_decode hplain hdecode
  refine ⟨horder, hwithin, hshape, ?_⟩
  rw [hposition, Value.size, hshape, hpayload, Nat.add_assoc]
  cases shape.isCounted <;> rfl

theorem perform_ok {step : Reader.Step} {answer : Reader.Answer}
    (hwithin : cursor.position ≤ data.length)
    (h : cursor.perform data step = .ok (answer, next)) :
    next.position ≤ data.length ∧ next.position = cursor.position + answer.size := by
  cases step with
  | setOrder order =>
    obtain ⟨rfl, rfl⟩ := Prod.mk.inj (Except.ok.inj h)
    exact ⟨hwithin, rfl⟩
  | atEnd =>
    obtain ⟨rfl, rfl⟩ := Prod.mk.inj (Except.ok.inj h)
    exact ⟨hwithin, rfl⟩
  | read shape =>
    obtain ⟨⟨value, after⟩, hread, hsame⟩ := Outcome.map_eq_ok.1 h
    obtain ⟨rfl, rfl⟩ := Prod.mk.inj hsame
    obtain ⟨_, hwithin, _, hposition⟩ := read_ok hread
    exact ⟨hwithin, hposition⟩

/-- After steps the cursor stands behind the bytes that they have read. -/
theorem run_position (hwithin : cursor.position ≤ data.length) (steps : List Reader.Step) :
    (cursor.run data steps).2.position ≤ data.length ∧
      (cursor.run data steps).2.position
        = cursor.position + Reader.consumed (cursor.run data steps).1 := by
  induction steps generalizing cursor with
  | nil => exact ⟨hwithin, rfl⟩
  | cons step steps ih =>
    rw [run]
    cases hstep : cursor.perform data step with
    | error error => exact ⟨hwithin, rfl⟩
    | ok found =>
      obtain ⟨answer, next⟩ := found
      obtain ⟨hnext, hsize⟩ := perform_ok hwithin hstep
      obtain ⟨hlast, hsum⟩ := ih hnext
      refine ⟨hlast, ?_⟩
      show (next.run data steps).2.position
        = cursor.position + (answer.size + Reader.consumed (next.run data steps).1)
      rw [hsum, hsize, Nat.add_assoc]

end Cursor

namespace Reader

/-- What a reader does as a cursor expects it: the same value, and the reader at the
cursor reached; or the same error, and any reader. -/
def Tracks {α : Type} (place : Cursor → Reader) :
    Except Error (α × Cursor) → Except Error α × Reader → Prop
  | .ok (value, next), outcome => outcome = (.ok value, place next)
  | .error error, outcome => outcome.1 = .error error

/-- The reader that `place` has for a cursor finds `data` there. -/
structure Follows (disk : Disk) (data : Bytes) (place : Cursor → Reader) : Prop where
  order : ∀ cursor, (place cursor).order = cursor.order
  setOrder : ∀ cursor order, { place cursor with order } = place { cursor with order }
  atEnd : ∀ cursor, (place cursor).atEnd = decide (data.length ≤ cursor.position)
  remaining : ∀ cursor, (place cursor).remaining = data.length - cursor.position
  readRaw : ∀ cursor, cursor.position ≤ data.length → ∀ count,
    Tracks place (cursor.take data count) ((place cursor).readRaw disk count)

variable {disk : Disk} {data : Bytes} {place : Cursor → Reader} {cursor : Cursor}

/-- A count that is checked before is refused with the error of the reading. -/
theorem Follows.readCounted (h : Follows disk data place)
    (hwithin : cursor.position ≤ data.length) (count : Nat) :
    Tracks place (cursor.take data count) ((place cursor).readCounted disk count) := by
  by_cases hshort : data.length - cursor.position < count
  · have htake : cursor.take data count
        = .error (.outOfBounds count (data.length - cursor.position)) := by
      rw [Cursor.take, if_pos (by omega)]
    rw [htake, Reader.readCounted, h.remaining, if_pos hshort]
    rfl
  · rw [Reader.readCounted, h.remaining, if_neg hshort]
    exact h.readRaw cursor hwithin count

theorem Follows.readBytes (h : Follows disk data place)
    (hwithin : cursor.position ≤ data.length) (shape : Shape) :
    Tracks place (cursor.readBytes data shape) ((place cursor).readBytes disk shape) := by
  have hraw := h.readRaw cursor hwithin shape.width
  rw [Cursor.readBytes, Reader.readBytes]
  rcases hreader : (place cursor).readRaw disk shape.width with ⟨result, reader⟩
  rw [hreader] at hraw
  cases htake : cursor.take data shape.width with
  | error error =>
    rw [htake] at hraw
    obtain rfl : result = .error error := hraw
    rfl
  | ok found =>
    obtain ⟨head, next⟩ := found
    rw [htake] at hraw
    obtain ⟨rfl, rfl⟩ := Prod.mk.inj hraw
    obtain ⟨rfl, _, hnext⟩ := Cursor.take_ok htake
    -- behind a length field the count is checked first, with the same error
    show Tracks place (if shape.isCounted then _ else _) (if shape.isCounted then _ else _)
    cases hcounted : shape.isCounted with
    | false => rfl
    | true =>
      rw [h.order]
      exact h.readCounted hnext (cursor.order.ofBytes head)

theorem Follows.read (h : Follows disk data place)
    (hwithin : cursor.position ≤ data.length) (shape : Shape) :
    Tracks place (cursor.read data shape) ((place cursor).read disk shape) := by
  have hbytes := h.readBytes hwithin shape
  rw [Cursor.read, Reader.read]
  rcases hreader : (place cursor).readBytes disk shape with ⟨result, reader⟩
  rw [hreader] at hbytes
  cases hread : cursor.readBytes data shape with
  | error error =>
    rw [hread] at hbytes
    obtain rfl : result = .error error := hbytes
    rfl
  | ok found =>
    obtain ⟨bytes, next⟩ := found
    rw [hread] at hbytes
    obtain ⟨rfl, rfl⟩ := Prod.mk.inj hbytes
    have horder : (place next).order = cursor.order := by
      rw [h.order, (Cursor.readBytes_ok hread).1]
    show Tracks place (shape.decode cursor.order bytes >>= fun value => .ok (value, next))
      (shape.decode (place next).order bytes, place next)
    rw [horder]
    cases shape.decode cursor.order bytes <;> rfl

/-- A reader that follows a cursor takes every step as the cursor does. -/
theorem Follows.perform (h : Follows disk data place)
    (hwithin : cursor.position ≤ data.length) (step : Step) :
    Tracks place (cursor.perform data step) ((place cursor).perform disk step) := by
  cases step with
  | setOrder order =>
    show (_, _) = (_, _)
    rw [h.setOrder]
  | atEnd =>
    show (_, _) = (_, _)
    rw [h.atEnd]
  | read shape =>
    have hread := h.read hwithin shape
    rw [Cursor.perform, Reader.perform]
    rcases hreader : (place cursor).read disk shape with ⟨result, reader⟩
    rw [hreader] at hread
    cases hcursor : cursor.read data shape with
    | error error =>
      rw [hcursor] at hread
      obtain rfl : result = .error error := hread
      rfl
    | ok found =>
      rw [hcursor] at hread
      obtain ⟨rfl, rfl⟩ := Prod.mk.inj hread
      rfl

/-- The outcomes of a reader that follows a cursor are those of the cursor, up to the
first failure; without one it ends where the cursor does. -/
theorem Follows.run (h : Follows disk data place)
    (hwithin : cursor.position ≤ data.length) (steps : List Step) :
    ((place cursor).run disk steps).1 = (cursor.run data steps).1 ∧
      ((∀ outcome ∈ (cursor.run data steps).1, outcome.isOk) →
        ((place cursor).run disk steps).2 = place (cursor.run data steps).2) := by
  induction steps generalizing cursor with
  | nil => exact ⟨rfl, fun _ => rfl⟩
  | cons step steps ih =>
    have hstep := h.perform hwithin step
    rw [Cursor.run, Reader.run]
    rcases hreader : (place cursor).perform disk step with ⟨result, reader⟩
    rw [hreader] at hstep
    cases hcursor : cursor.perform data step with
    | error error =>
      rw [hcursor] at hstep
      obtain rfl : result = .error error := hstep
      exact ⟨rfl, fun hok => by simp [Except.isOk, Except.toBool] at hok⟩
    | ok found =>
      -- the reader stands where the cursor does, so the other steps follow too
      obtain ⟨answer, next⟩ := found
      rw [hcursor] at hstep
      obtain ⟨rfl, rfl⟩ := Prod.mk.inj hstep
      obtain ⟨hanswers, hlast⟩ := ih (Cursor.perform_ok hwithin hcursor).1
      refine ⟨congrArg _ hanswers, ?_⟩
      intro hok
      apply hlast
      intro outcome hin
      exact hok outcome (List.mem_cons_of_mem _ hin)

end Reader

end ArchiveVfs
