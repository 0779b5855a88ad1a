import ArchiveVfs.Proofs.Stream.Requests

/-!
# Cursors that move forward

A cursor is a position in contents that are read from their start to their end: a read
shows what is behind the position, a seek moves forward within the contents and else
fails without a trace, and nothing can be written. As long as it is read forward, it is
seen as an open stream over a buffer is (`Cursor.sights_eq_memory`).
-/

namespace ArchiveVfs.Stream

/-- A position in contents that are read forward; there is none while the stream is closed. -/
structure Cursor where
  uri : Uri
  contents : Bytes
  mode : AccessMode := .read
  place : Option Nat := none

namespace Cursor

/-- Where a seek leads: forward, and not out of the contents. -/
def target (cursor : Cursor) (position : Nat) (offset : Int) (origin : Origin) :
    Except Error Nat :=
  let target := origin.target position cursor.contents.length offset
  if target < 0 ∨ cursor.contents.length < target then
    .error (.seekOutOfRange (min target maxSeekTarget) cursor.contents.length)
  else if target < position then .error (.backwardSeek cursor.uri position target.toNat)
  else .ok target.toNat

/-- The answer to a request. -/
def answer (cursor : Cursor) (request : Request) : Except Error Reply :=
  match request, cursor.place with
  | .call (.setMode _), _ | .call .close, _ | .call .unmap, _ | .flush, _ => .ok .done
  | .call .map, _ => .error (.notMappable cursor.uri)
  | .view, _ => .ok (.view none)
  | .call .tryOpen, none =>
    if cursor.mode = .read then .ok .done
    else .error (.unsupportedAccess cursor.uri cursor.mode .openStream)
  | .call .tryOpen, some _ => .error (.alreadyOpen cursor.uri)
  | .call (.read count), some position =>
    .ok (.bytes ((cursor.contents.drop position).take count))
  | .call (.write _), some _ => .error (.unsupportedAccess cursor.uri cursor.mode .writeBytes)
  | .call (.seek offset origin), some position =>
    (cursor.target position offset origin).map fun _ => .done
  | .call (.read _), none | .call (.write _), none | .call (.seek _ _), none =>
    .error (.notOpen cursor.uri)

/-- The cursor after a request. A request that fails leaves it where it was. -/
def after (cursor : Cursor) : Request → Cursor
  | .call (.setMode mode) => { cursor with mode }
  | .call .tryOpen =>
    if cursor.place.isNone ∧ cursor.mode = .read then { cursor with place := some 0 } else cursor
  | .call .close => { cursor with place := none }
  | .call (.read count) =>
    { cursor with
      place := cursor.place.map fun position => min (position + count) cursor.contents.length }
  | .call (.seek offset origin) =>
    { cursor with
      place := cursor.place.map fun position =>
        match cursor.target position offset origin with
        | .ok target => target
        | .error _ => position }
  | .call (.write _) | .call .map | .call .unmap | .flush | .view => cursor

/-- What is seen of one request. -/
def sight (cursor : Cursor) (request : Request) : Sight where
  answer := cursor.answer request
  mode := (cursor.after request).mode
  isMapped := false
  standing := (cursor.after request).place.map fun position =>
    { position, size := cursor.contents.length, atEnd := position = cursor.contents.length }

/-- What is seen of a run of requests. -/
def sights (cursor : Cursor) : List Request → List Sight
  | [] => []
  | request :: rest => cursor.sight request :: (cursor.after request).sights rest

theorem target_eq (cursor : Cursor) (position : Nat) (offset : Int) (origin : Origin) :
    cursor.target position offset origin =
      match seekTarget position cursor.contents.length offset origin with
      | .error error => .error error
      | .ok target =>
        if target < position then .error (.backwardSeek cursor.uri position target)
        else .ok target := by
  rw [target, seekTarget]
  generalize origin.target position cursor.contents.length offset = place
  by_cases hwithin : 0 ≤ place ∧ place ≤ cursor.contents.length
  · have hinside : ¬(place < 0 ∨ (cursor.contents.length : Int) < place) := by omega
    have hback : place < position ↔ place.toNat < position := by omega
    simp only [if_pos hwithin, if_neg hinside, hback]
  · have houtside : place < 0 ∨ (cursor.contents.length : Int) < place := by omega
    simp only [if_neg hwithin, if_pos houtside]

/-- A cursor stays over its contents. -/
theorem after_contents (cursor : Cursor) (request : Request) :
    (cursor.after request).uri = cursor.uri ∧
    (cursor.after request).contents = cursor.contents := by
  rcases request with (mode | _ | _ | count | new | ⟨offset, origin⟩ | _ | _) | _ | _
  case call.tryOpen =>
    rw [Cursor.after]
    split <;> exact ⟨rfl, rfl⟩
  all_goals exact ⟨rfl, rfl⟩

end Cursor

/-! ## Reading forward -/

/-- The requests read, or seek without going back, from this position of `size` bytes. -/
def Forward (size : Nat) : (position : Nat) → List Request → Prop
  | _, [] => True
  | position, .call (.read count) :: rest => Forward size (min (position + count) size) rest
  | position, .call (.seek offset origin) :: rest =>
    match seekTarget position size offset origin with
    | .error _ => Forward size position rest
    | .ok target => position ≤ target ∧ Forward size target rest
  | _, _ :: _ => False

/-- An open stream over a buffer that is read. -/
def openMemory (uri : Uri) (contents : Bytes) (position : Nat) : Stream :=
  memory { uri, data := contents, position, isOpen := true }

theorem standing_openMemory (uri : Uri) (contents : Bytes) {position : Nat}
    (hwithin : position ≤ contents.length) :
    (openMemory uri contents position).standing? =
      some { position, size := contents.length, atEnd := position = contents.length } := by
  have hend : contents.length ≤ position ↔ position = contents.length := by omega
  simp only [openMemory, Stream.standing?, Stream.isOpen, Stream.position, Stream.size,
    Stream.atEnd, MemoryStream.size, if_true, hend]

/-- A request that both answer alike and that leaves them at one place. -/
theorem Cursor.sights_step {uri : Uri} {contents : Bytes} {position next : Nat}
    {request : Request} {rest : List Request} {mounts : Mounts} {disk : Disk}
    (hwithin : next ≤ contents.length)
    (hanswer : Cursor.answer { uri, contents, place := some position } request
      = (openMemory uri contents position).answer mounts disk request)
    (hcursor : Cursor.after { uri, contents, place := some position } request
      = { uri, contents, place := some next })
    (hmemory : (openMemory uri contents position).after mounts disk request
      = (openMemory uri contents next, disk))
    (hrest : Cursor.sights { uri, contents, place := some next } rest
      = (openMemory uri contents next).sights mounts disk rest) :
    Cursor.sights { uri, contents, place := some position } (request :: rest)
      = (openMemory uri contents position).sights mounts disk (request :: rest) := by
  have hstanding := standing_openMemory uri contents hwithin
  rw [Cursor.sights, Stream.sights, hcursor, hmemory, hrest]
  congr 1
  simp only [Cursor.sight, Stream.sight, hcursor, hmemory, hstanding, hanswer]
  rfl

/-- Reading forward a cursor is seen as an open stream over a buffer. -/
theorem Cursor.sights_eq_memory (uri : Uri) (contents : Bytes) {position : Nat}
    (hwithin : position ≤ contents.length) {requests : List Request}
    (hforward : Forward contents.length position requests) (mounts : Mounts) (disk : Disk) :
    Cursor.sights { uri, contents, place := some position } requests
      = (openMemory uri contents position).sights mounts disk requests := by
  induction requests generalizing position with
  | nil => rfl
  | cons request rest ih =>
    rcases request with (mode | _ | _ | count | new | ⟨offset, origin⟩ | _ | _) | _ | _
    case call.read =>
      have hmoved : min (position + count) contents.length ≤ contents.length := Nat.min_le_right _ _
      have hplace : position + ((contents.drop position).take count).length
          = min (position + count) contents.length := by
        simp only [List.length_take, List.length_drop]
        omega
      refine sights_step hmoved rfl rfl ?_ (ih hmoved hforward)
      rw [← hplace]
      rfl
    case call.seek =>
      have htarget := Cursor.target_eq { uri, contents, place := some position } position offset
        origin
      rw [Forward] at hforward
      cases hseek : seekTarget position contents.length offset origin with
      | error error =>
        simp only [hseek] at htarget hforward
        refine sights_step hwithin ?_ ?_ ?_ (ih hwithin hforward)
        · simp only [Cursor.answer, htarget, openMemory, Stream.answer, Stream.seek,
            MemoryStream.seek, MemoryStream.size, hseek]
          rfl
        · simp only [Cursor.after, Option.map_some, htarget]
        · simp only [openMemory, Stream.after, perform, Stream.seek, MemoryStream.seek,
            MemoryStream.size, hseek]
          rfl
      | ok target =>
        simp only [hseek] at htarget hforward
        rw [if_neg (show ¬ target < position by omega)] at htarget
        have hmoved := seekTarget_le hseek
        refine sights_step hmoved ?_ ?_ ?_ (ih hmoved hforward.2)
        · simp only [Cursor.answer, htarget, openMemory, Stream.answer, Stream.seek,
            MemoryStream.seek, MemoryStream.size, hseek]
          rfl
        · simp only [Cursor.after, Option.map_some, htarget]
        · simp only [openMemory, Stream.after, perform, Stream.seek, MemoryStream.seek,
            MemoryStream.size, hseek]
          rfl
    all_goals exact hforward.elim

end ArchiveVfs.Stream
