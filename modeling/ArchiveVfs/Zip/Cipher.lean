import ArchiveVfs.Checksum
import ArchiveVfs.Zip.Record

/-!
# Encryption of entries

Three keys make a stream of bytes that is combined with the data. The password
sets the keys; every byte of the contents moves them on. Twelve bytes stand before
the data, and the last of them tells a right password from most wrong ones.
-/

namespace ArchiveVfs.Zip

/-- The keys of the cipher. -/
structure Keys where
  /-- Mixes the contents in. -/
  first : UInt32 := 0x12345678
  /-- Spreads the first key. -/
  second : UInt32 := 0x23456789
  /-- Gives the stream. -/
  third : UInt32 := 0x34567890
  deriving DecidableEq, Repr

namespace Keys

/-- Moves the keys on by a byte of the contents. -/
def add (keys : Keys) (b : UInt8) : Keys :=
  let first := Checksum.addByte keys.first b
  let second := (keys.second + (first &&& 0xFF)) * 134775813 + 1
  { first, second, third := Checksum.addByte keys.third (second >>> 24).toUInt8 }

/-- The keys that a password sets. -/
def ofPassword (password : Bytes) : Keys :=
  password.foldl add {}

/-- The next byte of the stream. -/
def streamByte (keys : Keys) : UInt8 :=
  let low := keys.third.toUInt16 ||| 3
  ((low * (low ^^^ 1)) >>> 8).toUInt8

end Keys

/-- Decrypts data, behind what is decrypted so far in reverse. -/
def decryptFrom (keys : Keys) (read : Bytes) : Bytes → Bytes
  | [] => read.reverse
  | c :: rest =>
    let b := c ^^^ keys.streamByte
    decryptFrom (keys.add b) (b :: read) rest

/-- Decrypts data. -/
def decrypt (password data : Bytes) : Bytes :=
  decryptFrom (.ofPassword password) [] data

/-- The number of bytes before encrypted data. -/
def cipherHeaderSize : Nat := 12

/-- Whether a year of this century's calendar has a leap day. -/
def isLeapYear (year : Nat) : Bool :=
  year % 4 = 0 && (year % 100 ≠ 0 || year % 400 = 0)

/-- The number of days in a month. -/
def daysIn (year month : Nat) : Nat :=
  if month = 2 then if isLeapYear year then 29 else 28
  else if [4, 6, 9, 11].contains month then 30
  else 31

/-- Whether a written day and time exist. -/
def isMoment (date time : Nat) : Bool :=
  let year := 1980 + date / 512
  let month := date / 32 % 16
  let day := date % 32
  1 ≤ month && month ≤ 12 && 1 ≤ day && day ≤ daysIn year month
    && time / 2048 ≤ 23 && time / 32 % 64 ≤ 59 && 2 * (time % 32) ≤ 60

/-- The byte that the last byte before the data has to be: the top one of the
checksum, or of the time when the checksum follows the data. -/
def Record.checkByte (record : Record) : UInt8 :=
  if record.streamed then
    if isMoment record.date record.time then UInt8.ofNat (record.time / 256) else 0
  else (record.checksum >>> 24).toUInt8

end ArchiveVfs.Zip
