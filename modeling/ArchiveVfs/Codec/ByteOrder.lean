import ArchiveVfs.Bytes

/-!
# Byte order

A number of several bytes is written with its lowest or with its highest byte
first. `ofBytes_toBytes` and `toBytes_ofBytes` say that neither direction loses
anything.
-/

namespace ArchiveVfs

namespace Bytes

/-- How many numbers `width` bytes can spell. -/
def span : (width : Nat) → Nat
  | 0 => 1
  | width + 1 => 256 * span width

/-- The lowest `width` bytes of a number, the lowest first. -/
def ofNatLittle : (width : Nat) → Nat → Bytes
  | 0, _ => []
  | width + 1, n => UInt8.ofNat n :: ofNatLittle width (n / 256)

@[simp] theorem length_ofNatLittle (width n : Nat) : (ofNatLittle width n).length = width := by
  induction width generalizing n <;> simp [ofNatLittle, *]

theorem toNatLittle_ofNatLittle (width n : Nat) (h : n < span width) :
    toNatLittle (ofNatLittle width n) = n := by
  induction width generalizing n with
  | zero =>
    rw [span] at h
    rw [ofNatLittle, toNatLittle]
    omega
  | succ width ih =>
    have : n / 256 < span width := Nat.div_lt_of_lt_mul h
    simp only [ofNatLittle, toNatLittle, UInt8.toNat_ofNat', ih _ this]
    omega

theorem toNatLittle_lt (data : Bytes) : toNatLittle data < span data.length := by
  induction data with
  | nil => exact Nat.zero_lt_one
  | cons b rest ih =>
    have := b.toNat_lt
    rw [toNatLittle, List.length_cons, span]
    omega

theorem ofNatLittle_toNatLittle (data : Bytes) :
    ofNatLittle data.length (toNatLittle data) = data := by
  induction data with
  | nil => rfl
  | cons b rest ih =>
    have hb := b.toNat_lt
    have hdiv : (b.toNat + 256 * toNatLittle rest) / 256 = toNatLittle rest := by omega
    have hmod : UInt8.ofNat (b.toNat + 256 * toNatLittle rest) = b := by
      apply UInt8.toNat_inj.1
      rw [UInt8.toNat_ofNat']
      omega
    simp only [List.length_cons, ofNatLittle, toNatLittle, hdiv, hmod, ih]

end Bytes

/-- Which byte of a number comes first. -/
inductive ByteOrder where
  /-- The lowest byte. -/
  | little
  /-- The highest byte. -/
  | big
  deriving DecidableEq, Repr, Inhabited

namespace ByteOrder

/-- The order of the machine that runs the library. -/
def host : ByteOrder := .little

/-- The lowest `width` bytes of a number. -/
def toBytes (order : ByteOrder) (width n : Nat) : Bytes :=
  match order with
  | .little => Bytes.ofNatLittle width n
  | .big => (Bytes.ofNatLittle width n).reverse

/-- The number that bytes spell. -/
def ofBytes (order : ByteOrder) (data : Bytes) : Nat :=
  match order with
  | .little => data.toNatLittle
  | .big => Bytes.toNatLittle data.reverse

@[simp] theorem length_toBytes (order : ByteOrder) (width n : Nat) :
    (order.toBytes width n).length = width := by
  cases order <;> simp [toBytes]

theorem ofBytes_toBytes (order : ByteOrder) (width n : Nat) (h : n < Bytes.span width) :
    order.ofBytes (order.toBytes width n) = n := by
  cases order <;> simp [toBytes, ofBytes, Bytes.toNatLittle_ofNatLittle width n h]

theorem toBytes_ofBytes (order : ByteOrder) (data : Bytes) :
    order.toBytes data.length (order.ofBytes data) = data := by
  cases order with
  | little => exact Bytes.ofNatLittle_toNatLittle data
  | big =>
    have := Bytes.ofNatLittle_toNatLittle data.reverse
    rw [List.length_reverse] at this
    simp [toBytes, ofBytes, this]

theorem ofBytes_lt (order : ByteOrder) (data : Bytes) :
    order.ofBytes data < Bytes.span data.length := by
  cases order with
  | little => exact Bytes.toNatLittle_lt data
  | big => simpa [ofBytes] using Bytes.toNatLittle_lt data.reverse

end ByteOrder

end ArchiveVfs
