import ArchiveVfs.Codec.Value
import ArchiveVfs.Proofs.Text.Utf8

/-!
# Values and their bytes

The bytes of a value are a head as wide as its shape says and, for strings and blobs,
the counted bytes behind it. `encode_plain` and `encode_counted` say how the parts spell the value
again, `encode_of_plain` and `encode_of_counted` that a value that was read from bytes is
written as these bytes.
-/

namespace ArchiveVfs

namespace Value

/-- The counted bytes of a value. -/
def payload : Value → Bytes
  | text value => Text.Utf8.bytesOf value
  | blob data => data
  | _ => []

/-- The number of bytes of a value. -/
def size (value : Value) : Nat :=
  value.shape.width + value.payload.length

/-- Values that are read as they were written: packed floats are rounded, and the length
field of a blob is four bytes wide. Strings of any length are among them. -/
def IsExact : Value → Prop
  | signedFloat _ | unsignedFloat _ => False
  | blob data => data.length ≤ maxBlobSize
  | _ => True

end Value

section Scalars

variable (order : ByteOrder)

@[simp] theorem ByteOrder.ofBytes_singleton (b : UInt8) : order.ofBytes [b] = b.toNat := by
  cases order <;> rfl

@[simp] theorem uint16_ofBytes_toBytes (n : UInt16) :
    UInt16.ofNat (order.ofBytes (order.toBytes 2 n.toNat)) = n := by
  rw [ByteOrder.ofBytes_toBytes order 2 n.toNat n.toNat_lt, UInt16.ofNat_toNat]

@[simp] theorem uint32_ofBytes_toBytes (n : UInt32) :
    UInt32.ofNat (order.ofBytes (order.toBytes 4 n.toNat)) = n := by
  rw [ByteOrder.ofBytes_toBytes order 4 n.toNat n.toNat_lt, UInt32.ofNat_toNat]

@[simp] theorem uint64_ofBytes_toBytes (n : UInt64) :
    UInt64.ofNat (order.ofBytes (order.toBytes 8 n.toNat)) = n := by
  rw [ByteOrder.ofBytes_toBytes order 8 n.toNat n.toNat_lt, UInt64.ofNat_toNat]

@[simp] theorem Guid.ofBytes_bytes (value : Guid) : Guid.ofBytes value.bytes = value := by
  obtain ⟨bytes, hlength⟩ := value
  simp [Guid.ofBytes, hlength]

theorem readText_bytesOf (value : String) :
    readText (Text.Utf8.bytesOf value) = .ok (.text value) := by
  rw [readText, Text.Utf8.bytesOf, Text.Utf8.decode_encode]
  simp

end Scalars

namespace Value

variable {order : ByteOrder} {value : Value} {data : Bytes}

/-- Bytes without a length field spell their value. -/
theorem encode_plain (hexact : value.IsExact) (hplain : value.shape.isCounted = false)
    (h : value.encode order = .ok data) :
    data.length = value.shape.width ∧ value.shape.decode order data = .ok value := by
  cases value with
  | signedFloat | unsignedFloat => exact hexact.elim
  | text | blob => cases hplain
  | bool value =>
    obtain rfl := Except.ok.inj h
    cases value <;> simp [shape, Shape.width, Shape.decode]
  | guid value =>
    obtain rfl := Except.ok.inj h
    simp [shape, Shape.width, Shape.decode, value.length_eq]
  | _ =>
    obtain rfl := Except.ok.inj h
    simp [shape, Shape.width, Shape.decode]

/-- Bytes behind a length field are as many as it says, and spell their value. -/
theorem encode_counted (hcounted : value.shape.isCounted = true)
    (h : value.encode order = .ok data) :
    ∃ head, data = head ++ value.payload ∧ head.length = value.shape.width ∧
      order.ofBytes head = value.payload.length ∧
      value.shape.decode order value.payload = .ok value := by
  cases value with
  | text value =>
    -- what is not refused fits its length field
    rw [encode] at h
    split at h
    · cases h
    · rename_i hshort
      obtain rfl := Except.ok.inj h
      refine ⟨_, rfl, order.length_toBytes 2 _, order.ofBytes_toBytes 2 _ ?_,
        readText_bytesOf value⟩
      show _ < 65536
      rw [maxTextSize] at hshort
      exact Nat.lt_of_not_le hshort
  | blob bytes =>
    rw [encode] at h
    split at h
    · cases h
    · rename_i hshort
      obtain rfl := Except.ok.inj h
      refine ⟨_, rfl, order.length_toBytes 4 _, order.ofBytes_toBytes 4 _ ?_, rfl⟩
      show _ < 4294967296
      rw [maxBlobSize] at hshort
      exact Nat.lt_of_not_le hshort
  | _ => cases hcounted

/-- Only a string with too many bytes is refused. -/
theorem encode_eq_error {error : Error} (hexact : value.IsExact)
    (h : value.encode order = .error error) :
    ∃ string, value = .text string ∧ maxTextSize < (Text.Utf8.bytesOf string).length ∧
      error = .stringTooLong (Text.Utf8.bytesOf string).length := by
  cases value with
  | text value =>
    rw [encode] at h
    split at h
    · rename_i hlong
      exact ⟨value, rfl, hlong, (Except.error.inj h).symm⟩
    · cases h
  | blob data =>
    rw [encode, if_neg (Nat.not_lt.2 hexact)] at h
    cases h
  | _ => cases h

end Value

namespace Shape

variable {order : ByteOrder} {shape : Shape} {data : Bytes} {value : Value}

/-- A value read from bytes has their shape, and what was counted as its counted bytes. -/
theorem of_decode (hplain : shape.isCounted = false → data.length = shape.width)
    (h : shape.decode order data = .ok value) :
    value.shape = shape ∧ value.payload = if shape.isCounted then data else [] := by
  cases shape with
  | text =>
    rw [decode, readText] at h
    split at h
    · rename_i cs hread
      obtain rfl := Except.ok.inj h
      refine ⟨rfl, ?_⟩
      show Text.Utf8.encode (String.ofList cs).toList = data
      rw [String.toList_ofList]
      exact Text.Utf8.encode_of_decode hread
    · cases h
  | raw count =>
    obtain rfl := Except.ok.inj h
    exact ⟨congrArg Shape.raw (hplain rfl), rfl⟩
  | _ =>
    obtain rfl := Except.ok.inj h
    exact ⟨rfl, rfl⟩

/-- Shapes of which different bytes are read as different values: a truth value is any byte but
zero, and packed floats are rounded. -/
def IsExact : Shape → Prop
  | bool | signedFloat | unsignedFloat => False
  | _ => True

section Scalars

variable (order : ByteOrder)

/-- What bytes spell fits in them, and spells them again. -/
theorem toBytes_ofBytes_of_length {width : Nat} (hlength : data.length = width) :
    order.ofBytes data < Bytes.span width ∧ order.toBytes width (order.ofBytes data) = data := by
  subst hlength
  exact ⟨order.ofBytes_lt data, order.toBytes_ofBytes data⟩

theorem toBytes_mod_span {width : Nat} (hlength : data.length = width) :
    order.toBytes width (order.ofBytes data % Bytes.span width) = data := by
  obtain ⟨hlt, hsame⟩ := toBytes_ofBytes_of_length order hlength
  rw [Nat.mod_eq_of_lt hlt, hsame]

theorem uint8_ofBytes (hlength : data.length = 1) : [UInt8.ofNat (order.ofBytes data)] = data := by
  obtain ⟨b, rfl⟩ := List.length_eq_one_iff.1 hlength
  simp

theorem bytes_guid_ofBytes (hlength : data.length = 16) : (Guid.ofBytes data).bytes = data := by
  simp [Guid.ofBytes, ← hlength]

end Scalars

/-- A value that was read from bytes without a length field is written as these bytes. -/
theorem encode_of_plain (hexact : shape.IsExact) (hplain : shape.isCounted = false)
    (hlength : data.length = shape.width) (h : shape.decode order data = .ok value) :
    value.IsExact ∧ value.encode order = .ok data := by
  cases shape with
  | bool | signedFloat | unsignedFloat => exact hexact.elim
  | text | blob => cases hplain
  | int8 | uint8 =>
    obtain rfl := Except.ok.inj h
    exact ⟨trivial, by simp [Value.encode, uint8_ofBytes order hlength]⟩
  | int16 | uint16 =>
    obtain rfl := Except.ok.inj h
    exact ⟨trivial, by
      simpa [Value.encode, width, Bytes.span] using toBytes_mod_span order hlength⟩
  | int32 | uint32 | float =>
    obtain rfl := Except.ok.inj h
    exact ⟨trivial, by
      simpa [Value.encode, width, Bytes.span] using toBytes_mod_span order hlength⟩
  | int64 | uint64 | double =>
    obtain rfl := Except.ok.inj h
    exact ⟨trivial, by
      simpa [Value.encode, width, Bytes.span] using toBytes_mod_span order hlength⟩
  | guid =>
    obtain rfl := Except.ok.inj h
    exact ⟨trivial, by rw [Value.encode, bytes_guid_ofBytes hlength]⟩
  | raw count =>
    obtain rfl := Except.ok.inj h
    exact ⟨trivial, rfl⟩

/-- A value that was read behind a length field is written with this field before it. -/
theorem encode_of_counted {head : Bytes} (hcounted : shape.isCounted = true)
    (hlength : head.length = shape.width) (hcount : data.length = order.ofBytes head)
    (h : shape.decode order data = .ok value) :
    value.IsExact ∧ value.encode order = .ok (head ++ data) := by
  obtain ⟨hlt, hsame⟩ := toBytes_ofBytes_of_length order hlength
  rw [← hcount] at hlt hsame
  have hpayload := (of_decode (by simp [hcounted]) h).2
  rw [if_pos hcounted] at hpayload
  cases shape with
  | text =>
    rw [decode, readText] at h
    split at h
    · obtain rfl := Except.ok.inj h
      have hshort : ¬ maxTextSize < data.length := Nat.not_lt.2 (Nat.le_of_lt_succ hlt)
      refine ⟨trivial, ?_⟩
      rw [Value.encode]
      rw [Value.payload] at hpayload
      rw [hpayload, if_neg hshort]
      exact congrArg (fun field => Except.ok (field ++ data)) hsame
    · cases h
  | blob =>
    obtain rfl := Except.ok.inj h
    have hshort : data.length ≤ maxBlobSize := Nat.le_of_lt_succ hlt
    refine ⟨hshort, ?_⟩
    rw [Value.encode, if_neg (Nat.not_lt.2 hshort)]
    exact congrArg (fun field => Except.ok (field ++ data)) hsame
  | _ => cases hcounted

end Shape

end ArchiveVfs
