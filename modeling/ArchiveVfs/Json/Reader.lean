import ArchiveVfs.Json.Number
import ArchiveVfs.Json.Text

/-!
# Reading JSON

A text is read from the front. What a value has to be is known where it is read:
`readScalar` accepts a value without parts, `readMembers` reads an object with a
reader for what stands behind each key, `nextItem` finds the items of an array, and
`skipValue` passes over any value. The first fault ends the reading.
-/

namespace ArchiveVfs.Json

/-- Characters that stand between the parts of a text. -/
def isBlank (c : Char) : Bool :=
  c = ' ' || c = '\t' || c = '\n' || c = '\x0d'

/-- The text from its first character on that is no blank. -/
def skipBlanks (cs : List Char) : List Char :=
  cs.dropWhile isBlank

/-! ## Values without parts -/

/-- Reads what is left of a word. -/
def readWord : (word : List Char) → List Char → Except Fault (List Char)
  | [], cs => .ok cs
  | _ :: _, [] => .error (.atEnd .endInValue)
  | w :: word, c :: cs => if w = c then readWord word cs else .error (.atNext .noWord (c :: cs))

/-- What is found at the front of a text, and what follows it. Arrays and objects are
not entered. -/
def readFound : List Char → Except Fault (Found × List Char)
  | [] => .error (.atEnd .endInValue)
  | c :: rest =>
    if c = 'n' then (readWord ['u', 'l', 'l'] rest).map fun rest => (.null, rest)
    else if c = 't' then (readWord ['r', 'u', 'e'] rest).map fun rest => (.bool true, rest)
    else if c = 'f' then (readWord ['a', 'l', 's', 'e'] rest).map fun rest => (.bool false, rest)
    else if c = '-' then (readNumber true rest).map fun parts => (.number parts.1, parts.2)
    else if c.isDigit then
      (readNumber false (c :: rest)).map fun parts => (.number parts.1, parts.2)
    else if c = '\x22' then (readText [] rest).map fun parts => (.text parts.1, parts.2)
    else if c = '[' then .ok (.array, c :: rest)
    else if c = '\x7b' then .ok (.object, c :: rest)
    else .error (.atNext .noValue (c :: rest))

/-- Reads a value that `accept` takes. -/
def readScalar {α : Type} (accept : Found → Except Complaint α) (cs : List Char) :
    Except Fault (α × List Char) :=
  match readFound (skipBlanks cs) with
  | .error fault => .error fault
  | .ok (found, rest) =>
    match accept found with
    | .ok value => .ok (value, rest)
    | .error complaint => .error (.before complaint rest)

/-! ## Objects -/

/-- Reads the next key of an object, or finds the end of the object. -/
def nextKey (isFirst : Bool) (cs : List Char) : Except Fault (Option String × List Char) :=
  match skipBlanks cs with
  | [] => .error (.atEnd .endInObject)
  | '\x7d' :: rest => .ok (none, rest)
  | c :: rest =>
    if isFirst then
      if c = '\x22' then (readText [] rest).map fun parts => (some parts.1, parts.2)
      else .error (.atNext .noKey (c :: rest))
    else if c = ',' then
      match skipBlanks rest with
      | [] => .error (.atEnd .endInValue)
      | '\x22' :: rest => (readText [] rest).map fun parts => (some parts.1, parts.2)
      | '\x7d' :: rest => .error (.atNext .commaAtEnd ('\x7d' :: rest))
      | rest => .error (.atNext .noKey rest)
    else .error (.atNext .noMemberEnd (c :: rest))

/-- Reads the colon behind a key. -/
def readColon (cs : List Char) : Except Fault (List Char) :=
  match skipBlanks cs with
  | [] => .error (.atEnd .endInObject)
  | c :: rest => if c = ':' then .ok rest else .error (.atNext .noColon (c :: rest))

/-- Reads the members of an object behind its opening brace; `member` reads on behind a
key. A member takes at least one character, so `steps` may be the length of the text. -/
def readMembers {σ : Type} (member : σ → String → List Char → Except Fault (σ × List Char)) :
    (steps : Nat) → (isFirst : Bool) → σ → List Char → Except Fault (σ × List Char)
  | 0, _, _, _ => .error (.atEnd .endInObject)
  | steps + 1, isFirst, state, cs =>
    match nextKey isFirst cs with
    | .error fault => .error fault
    | .ok (none, rest) => .ok (state, rest)
    | .ok (some key, rest) =>
      match member state key rest with
      | .error fault => .error fault
      | .ok (state, rest) => readMembers member steps false state rest

/-! ## Arrays -/

/-- Finds the next item of an array, or that there is none before the closing bracket. -/
def nextItem (isFirst : Bool) (cs : List Char) : Except Fault (Option (List Char)) :=
  match skipBlanks cs with
  | [] => .error (.atEnd .endInArray)
  | c :: rest =>
    if c = ']' then .ok none
    else if isFirst then .ok (some (c :: rest))
    else if c = ',' then
      match skipBlanks rest with
      | [] => .error (.atEnd .endInValue)
      | ']' :: rest => .error (.atNext .commaAtEnd (']' :: rest))
      | rest => .ok (some rest)
    else .error (.atNext .noItemEnd (c :: rest))

/-- Reads the closing bracket of an array that needs no more items. -/
def closeArray (cs : List Char) : Except Fault (List Char) :=
  match skipBlanks cs with
  | [] => .error (.atEnd .endInArray)
  | ']' :: rest => .ok rest
  | ',' :: rest =>
    match skipBlanks rest with
    | ']' :: rest => .error (.atNext .commaAtEnd (']' :: rest))
    | rest => .error (.atNext .moreBehind rest)
  | rest => .error (.atNext .moreBehind rest)

/-! ## Values of any kind -/

/-- An array or an object that is being passed over. -/
inductive Frame where
  | array
  | object
  deriving DecidableEq, Repr

namespace Frame

/-- The bracket at the end. -/
def close : Frame → Char
  | array => ']'
  | object => '\x7d'

/-- The complaint if the text ends inside. -/
def unfinished : Frame → Complaint
  | array => .endInArray
  | object => .endInObject

/-- The complaint if neither a comma nor the end follows a part. -/
def unseparated : Frame → Complaint
  | array => .noItemEnd
  | object => .noMemberEnd

end Frame

/-- Passes over what stands before the value of a part: in an object its key. -/
def skipToValue (frame : Frame) (cs : List Char) : Except Fault (List Char) :=
  match frame with
  | .array => .ok cs
  | .object =>
    match skipBlanks cs with
    | [] => .error (.atEnd .endInObject)
    | c :: rest =>
      if c = '\x22' then (skipText rest).bind readColon
      else .error (.atNext .noKey (c :: rest))

/-- Passes over a value without parts. -/
def skipScalar (cs : List Char) : Except Fault (List Char) :=
  match cs with
  | [] => .error (.atEnd .endInValue)
  | c :: rest =>
    if c = 'n' then readWord ['u', 'l', 'l'] rest
    else if c = 't' then readWord ['r', 'u', 'e'] rest
    else if c = 'f' then readWord ['a', 'l', 's', 'e'] rest
    else if c = '-' then skipNumber rest
    else if c.isDigit then skipNumber (c :: rest)
    else if c = '\x22' then skipText rest
    else .error (.atNext .noValue (c :: rest))

/-- Where passing over a value has got to. -/
inductive Stage where
  /-- A value begins. -/
  | value
  /-- An array or an object has just begun. -/
  | opened
  /-- A value has ended. -/
  | ended
  deriving DecidableEq, Repr

/-- Passes over a value inside the given frames, the innermost first, however deep. Each
character takes two steps at most, so twice the length of the text is enough. -/
def skipFrom : (steps : Nat) → Stage → List Frame → List Char → Except Fault (List Char)
  | 0, _, _, _ => .error (.atEnd .endInValue)
  | _ + 1, .ended, [], cs => .ok cs
  | _ + 1, .opened, [], cs => .ok cs
  | steps + 1, .value, frames, cs =>
    match skipBlanks cs with
    | '[' :: rest => skipFrom steps .opened (.array :: frames) rest
    | '\x7b' :: rest => skipFrom steps .opened (.object :: frames) rest
    | cs => (skipScalar cs).bind (skipFrom steps .ended frames)
  | steps + 1, stage, frame :: frames, cs =>
    match skipBlanks cs with
    | [] => .error (.atEnd frame.unfinished)
    | c :: rest =>
      if c = frame.close then skipFrom steps .ended frames rest
      else if stage = .opened then
        (skipToValue frame (c :: rest)).bind (skipFrom steps .value (frame :: frames))
      else if c = ',' then
        (skipToValue frame rest).bind (skipFrom steps .value (frame :: frames))
      else .error (.atNext frame.unseparated (c :: rest))

/-- Passes over a value. -/
def skipValue (cs : List Char) : Except Fault (List Char) :=
  skipFrom (2 * cs.length + 2) .value [] cs

/-- Checks that nothing but blanks follows. -/
def demandEnd (cs : List Char) : Except Fault Unit :=
  match skipBlanks cs with
  | [] => .ok ()
  | rest => .error (.atNext .moreBehind rest)

end ArchiveVfs.Json
