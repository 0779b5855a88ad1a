import ArchiveVfs.Codec.ByteOrder
import ArchiveVfs.Codec.PackedFloat
import ArchiveVfs.Error

/-!
# Typed values

The values that streams of records are made of, and the bytes that stand for them.
Scalars have the width of their type, a truth value is one byte, a string has its
length in two bytes before it and a blob in four. Floats are given by their bits.
A `Shape` says which value is to be read.
-/

namespace ArchiveVfs

/-- An identifier of sixteen bytes. -/
structure Guid where
  /-- The bytes. -/
  bytes : Bytes
  /-- There are sixteen. -/
  length_eq : bytes.length = 16
  deriving DecidableEq

/-- The identifier of the first sixteen bytes, zeros behind fewer. -/
def Guid.ofBytes (data : Bytes) : Guid where
  bytes := (data ++ List.replicate 16 0).take 16
  length_eq := by simp

/-- A value of a record. -/
inductive Value where
  | int8 (value : Int8)
  | uint8 (value : UInt8)
  | int16 (value : Int16)
  | uint16 (value : UInt16)
  | int32 (value : Int32)
  | uint32 (value : UInt32)
  | int64 (value : Int64)
  | uint64 (value : UInt64)
  | float (bits : UInt32)
  | double (bits : UInt64)
  | bool (value : Bool)
  | text (value : String)
  | blob (data : Bytes)
  | guid (value : Guid)
  /-- A float between -1 and 1, packed. -/
  | signedFloat (bits : UInt32)
  /-- A float between 0 and 1, packed. -/
  | unsignedFloat (bits : UInt32)
  /-- Bytes as they are. -/
  | raw (data : Bytes)
  deriving DecidableEq

/-- Which value is to be read. -/
inductive Shape where
  | int8
  | uint8
  | int16
  | uint16
  | int32
  | uint32
  | int64
  | uint64
  | float
  | double
  | bool
  | text
  | blob
  | guid
  | signedFloat
  | unsignedFloat
  /-- So many bytes as they are. -/
  | raw (count : Nat)
  deriving DecidableEq, Repr

/-- The shape of a value. -/
def Value.shape : Value → Shape
  | int8 _ => .int8
  | uint8 _ => .uint8
  | int16 _ => .int16
  | uint16 _ => .uint16
  | int32 _ => .int32
  | uint32 _ => .uint32
  | int64 _ => .int64
  | uint64 _ => .uint64
  | float _ => .float
  | double _ => .double
  | bool _ => .bool
  | text _ => .text
  | blob _ => .blob
  | guid _ => .guid
  | signedFloat _ => .signedFloat
  | unsignedFloat _ => .unsignedFloat
  | raw data => .raw data.length

/-- The greatest number of bytes in a string. -/
def maxTextSize : Nat := 65535

/-- The greatest number of bytes in a blob. -/
def maxBlobSize : Nat := 4294967295

/-- The bytes of a value. -/
def Value.encode (order : ByteOrder) : Value → Except Error Bytes
  | int8 value => .ok [value.toUInt8]
  | uint8 value => .ok [value]
  | int16 value => .ok (order.toBytes 2 value.toUInt16.toNat)
  | uint16 value => .ok (order.toBytes 2 value.toNat)
  | int32 value => .ok (order.toBytes 4 value.toUInt32.toNat)
  | uint32 value => .ok (order.toBytes 4 value.toNat)
  | int64 value => .ok (order.toBytes 8 value.toUInt64.toNat)
  | uint64 value => .ok (order.toBytes 8 value.toNat)
  | float bits => .ok (order.toBytes 4 bits.toNat)
  | double bits => .ok (order.toBytes 8 bits.toNat)
  | bool value => .ok [if value then 1 else 0]
  | text value =>
    let data := Text.Utf8.bytesOf value
    if maxTextSize < data.length then .error (.stringTooLong data.length)
    else .ok (order.toBytes 2 data.length ++ data)
  | blob data =>
    if maxBlobSize < data.length then .error (.invalidData (.blobTooLong data.length))
    else .ok (order.toBytes 4 data.length ++ data)
  | guid value => .ok value.bytes
  | signedFloat bits => .ok (order.toBytes 2 (PackedFloat.packSigned bits).toNat)
  | unsignedFloat bits => .ok (order.toBytes 2 (PackedFloat.packUnsigned bits).toNat)
  | raw data => .ok data

/-- The number of bytes of a shape, of its length field for strings and blobs. -/
def Shape.width : Shape → Nat
  | .int8 | .uint8 | .bool => 1
  | .int16 | .uint16 | .text | .signedFloat | .unsignedFloat => 2
  | .int32 | .uint32 | .float | .blob => 4
  | .int64 | .uint64 | .double => 8
  | .guid => 16
  | .raw count => count

/-- The string that bytes spell. -/
def readText (data : Bytes) : Except Error Value :=
  match Text.Utf8.decode data with
  | .ok cs => .ok (.text (String.ofList cs))
  | .error fault => .error (.invalidData (.notText fault))

/-- The value of a shape that bytes stand for; strings and blobs come without their
length field. -/
def Shape.decode (order : ByteOrder) (data : Bytes) : Shape → Except Error Value
  | .int8 => .ok (.int8 (UInt8.ofNat (order.ofBytes data)).toInt8)
  | .uint8 => .ok (.uint8 (UInt8.ofNat (order.ofBytes data)))
  | .int16 => .ok (.int16 (UInt16.ofNat (order.ofBytes data)).toInt16)
  | .uint16 => .ok (.uint16 (UInt16.ofNat (order.ofBytes data)))
  | .int32 => .ok (.int32 (UInt32.ofNat (order.ofBytes data)).toInt32)
  | .uint32 => .ok (.uint32 (UInt32.ofNat (order.ofBytes data)))
  | .int64 => .ok (.int64 (UInt64.ofNat (order.ofBytes data)).toInt64)
  | .uint64 => .ok (.uint64 (UInt64.ofNat (order.ofBytes data)))
  | .float => .ok (.float (UInt32.ofNat (order.ofBytes data)))
  | .double => .ok (.double (UInt64.ofNat (order.ofBytes data)))
  | .bool => .ok (.bool (order.ofBytes data ≠ 0))
  | .text => readText data
  | .blob => .ok (.blob data)
  | .guid => .ok (.guid (.ofBytes data))
  | .signedFloat =>
    .ok (.signedFloat (PackedFloat.unpackSigned (UInt16.ofNat (order.ofBytes data))))
  | .unsignedFloat =>
    .ok (.unsignedFloat (PackedFloat.unpackUnsigned (UInt16.ofNat (order.ofBytes data))))
  | .raw _ => .ok (.raw data)

/-- Whether the bytes of a shape follow a length field. -/
def Shape.isCounted : Shape → Bool
  | .text | .blob => true
  | _ => false

end ArchiveVfs
