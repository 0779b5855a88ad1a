import ArchiveVfs.Decimal.Shortest
import ArchiveVfs.Text.Quoted
import ArchiveVfs.Text.Utf8

/-!
# Faults of JSON texts

A text that cannot be read has a complaint at a place, which is given by line and
column. Columns count bytes, and a place names the last byte that was looked at.
-/

namespace ArchiveVfs.Json

/-- A number that was read. -/
inductive Number where
  /-- A whole number of 64 bits without a sign. -/
  | natural (value : Nat)
  /-- A whole number below zero, without its sign. -/
  | negative (size : Nat)
  /-- Any other number, by its bits. -/
  | float (bits : UInt64)
  deriving DecidableEq, Repr

/-- What is found where a value has to be. -/
inductive Found where
  | null
  | bool (value : Bool)
  | number (value : Number)
  | text (value : String)
  /-- The beginning of an array. -/
  | array
  /-- The beginning of an object. -/
  | object
  deriving DecidableEq, Repr

/-- The wording of what is found. -/
def Found.label : Found → String
  | .null => "null"
  | .bool value => "boolean `" ++ toString value ++ "`"
  | .number (.natural value) => "integer `" ++ toString value ++ "`"
  | .number (.negative size) => "integer `-" ++ toString size ++ "`"
  | .number (.float bits) => "floating point `" ++ Decimal.render bits ++ "`"
  | .text value => "string " ++ Text.quoted value
  | .array => "sequence"
  | .object => "map"

/-- What is wrong with a text. -/
inductive Complaint where
  /-- The text ends in an array. -/
  | endInArray
  /-- The text ends in an object. -/
  | endInObject
  /-- The text ends in a string. -/
  | endInText
  /-- The text ends where a value has to be. -/
  | endInValue
  /-- There is no colon behind a key. -/
  | noColon
  /-- An item is followed by something else than a comma or the end of the array. -/
  | noItemEnd
  /-- A member is followed by something else than a comma or the end of the object. -/
  | noMemberEnd
  /-- A word is none of the three known ones. -/
  | noWord
  /-- No value begins so. -/
  | noValue
  /-- There is no such escape. -/
  | badEscape
  /-- A number breaks the rules. -/
  | badNumber
  /-- A number is too large. -/
  | hugeNumber
  /-- A control character stands in a string. -/
  | control
  /-- A key is no string. -/
  | noKey
  /-- One half of a surrogate pair is without the other. -/
  | loneHalf
  /-- The first half of a surrogate pair is not followed by an escape. -/
  | brokenPair
  /-- A comma stands before a closing bracket. -/
  | commaAtEnd
  /-- Something stands behind the value. -/
  | moreBehind
  /-- A field is given twice. -/
  | repeated (field : String)
  /-- A value of another kind is needed. -/
  | wrongKind (found : Found) (wanted : String)
  /-- Another value of the kind is needed. -/
  | wrongValue (found : Found) (wanted : String)
  deriving DecidableEq, Repr

/-- The wording of a complaint. -/
def Complaint.label : Complaint → String
  | .endInArray => "EOF while parsing a list"
  | .endInObject => "EOF while parsing an object"
  | .endInText => "EOF while parsing a string"
  | .endInValue => "EOF while parsing a value"
  | .noColon => "expected `:`"
  | .noItemEnd => "expected `,` or `]`"
  | .noMemberEnd => "expected `,` or `\x7d`"
  | .noWord => "expected ident"
  | .noValue => "expected value"
  | .badEscape => "invalid escape"
  | .badNumber => "invalid number"
  | .hugeNumber => "number out of range"
  | .control => "control character (\\u0000-\\u001F) found while parsing a string"
  | .noKey => "key must be a string"
  | .loneHalf => "lone leading surrogate in hex escape"
  | .brokenPair => "unexpected end of hex escape"
  | .commaAtEnd => "trailing comma"
  | .moreBehind => "trailing characters"
  | .repeated field => "duplicate field `" ++ field ++ "`"
  | .wrongKind found wanted => "invalid type: " ++ found.label ++ ", expected " ++ wanted
  | .wrongValue found wanted => "invalid value: " ++ found.label ++ ", expected " ++ wanted

/-- A complaint where reading stopped. -/
structure Fault where
  /-- What is wrong. -/
  complaint : Complaint
  /-- What was not read. -/
  rest : List Char
  /-- The number of further bytes that were looked at. -/
  further : Nat := 0
  deriving DecidableEq, Repr

/-- The line and the column at the end of some bytes. -/
def placeBehind (read : Bytes) : Nat × Nat :=
  (read.count 10 + 1, (read.reverse.takeWhile (· ≠ 10)).length)

/-- The line and the column of a fault in a text. -/
def Fault.place (fault : Fault) (text : String) : Nat × Nat :=
  let unread := (String.ofList fault.rest).utf8ByteSize
  placeBehind ((Text.Utf8.bytesOf text).take (text.utf8ByteSize - unread + fault.further))

/-- A fault at the byte that comes next, or at the end. -/
def Fault.atNext (complaint : Complaint) (rest : List Char) : Fault :=
  { complaint, rest, further := 1 }

/-- A fault in front of what comes next. -/
def Fault.before (complaint : Complaint) (rest : List Char) : Fault :=
  { complaint, rest }

/-- A fault at the end of the text. -/
def Fault.atEnd (complaint : Complaint) : Fault :=
  { complaint, rest := [] }

end ArchiveVfs.Json
