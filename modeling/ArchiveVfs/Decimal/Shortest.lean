import ArchiveVfs.Text.Cut

/-!
# Shortest decimals

A number of 64 bits stands for all numbers that lie nearer to it than to any other
of its kind. Of the decimals among them with the fewest digits, the nearest one is
its shortest decimal. `render` writes it with a point or, if it is very large or
very small, with an exponent.
-/

namespace ArchiveVfs.Decimal

/-- A positive number and the ends of what it stands for, as fractions with one
denominator. -/
structure Span where
  /-- The lower end. -/
  low : Nat
  /-- The number. -/
  value : Nat
  /-- The upper end. -/
  high : Nat
  /-- The denominator of all three. -/
  unit : Nat
  /-- Whether the ends belong to it. -/
  closed : Bool
  deriving Repr

namespace Span

/-- The span of a positive number, given by its bits: 52 of the fraction, 11 of the
exponent. Below a power of two the next number is nearer by half. -/
def ofBits (bits : UInt64) : Span :=
  let fraction := bits.toNat % (1 <<< 52)
  let exponent := bits.toNat / (1 <<< 52) % 2048
  let mantissa := if exponent = 0 then fraction else (1 <<< 52) + fraction
  let power := max exponent 1
  let below := if fraction = 0 && 1 < exponent then 1 else 2
  let scale := 1 <<< (power - 1077)
  { low := (4 * mantissa - below) * scale
    value := 4 * mantissa * scale
    high := (4 * mantissa + 2) * scale
    unit := 1 <<< (1077 - power)
    closed := mantissa % 2 = 0 }

/-- A power of ten. -/
def tenTo : (exponent : Nat) → Nat
  | 0 => 1
  | exponent + 1 => 10 * tenTo exponent

/-- The span with its numbers multiplied by a power of ten. -/
def shift (span : Span) (places : Int) : Span :=
  { span with
    low := span.low * tenTo places.toNat
    value := span.value * tenTo places.toNat
    high := span.high * tenTo places.toNat
    unit := span.unit * tenTo (-places).toNat }

/-- The number of zeros behind the point of a fraction below one, up to `bound`. -/
def zerosBehindPoint (unit : Nat) : (bound value : Nat) → Nat
  | 0, _ => 0
  | bound + 1, value =>
    if unit ≤ 10 * value then 0 else zerosBehindPoint unit bound (10 * value) + 1

/-- The number of digits before the point; below one, the zeros behind it count
negative. -/
def pointPlace (span : Span) : Int :=
  if span.unit ≤ span.value then (Nat.toDigits 10 (span.value / span.unit)).length
  else -(zerosBehindPoint span.unit 330 span.value)

/-- Whether a whole number lies in the span. -/
def holds (span : Span) (number : Nat) : Bool :=
  let scaled := number * span.unit
  if span.closed then span.low ≤ scaled && scaled ≤ span.high
  else span.low < scaled && scaled < span.high

/-- The nearest whole number, if it lies in the span; of two equally near the even one. -/
def nearest? (span : Span) : Option Nat :=
  let down := span.value / span.unit
  let twice := 2 * span.value
  let middle := (2 * down + 1) * span.unit
  let number :=
    if twice < middle then down
    else if middle < twice then down + 1
    else if down % 2 = 0 then down else down + 1
  if span.holds number then some number
  else ([down, down + 1].find? span.holds)

end Span

/-- A decimal: digits, and how many of them stand before the point. -/
structure Digits where
  /-- The digits, none of them a zero at the end. -/
  digits : List Char
  /-- The number of digits before the point; negative for zeros behind it. -/
  point : Int
  deriving DecidableEq, Repr

/-- The shortest decimal of a positive number given by its bits. -/
def shortest (bits : UInt64) : Digits :=
  let span := Span.ofBits bits
  let point := span.pointPlace
  let found := (List.range' 1 17).findSome? fun count =>
    (span.shift (Int.ofNat count - point)).nearest?.map fun number => (count, number)
  let (count, number) := found.getD (1, 0)
  let digits := Nat.toDigits 10 number
  { digits := Text.dropTrailing '0' digits, point := point + Int.ofNat (digits.length - count) }

/-- Zeros in a row. -/
def zeros (count : Int) : List Char :=
  List.replicate count.toNat '0'

/-- A decimal as it is written: with a point from 0.00001 up to 16 digits before the
point, else with an exponent. -/
def Digits.written (decimal : Digits) : List Char :=
  let { digits, point } := decimal
  if digits.length ≤ point && point ≤ 16 then digits ++ zeros (point - digits.length) ++ ['.', '0']
  else if 0 < point && point ≤ 16 then digits.take point.toNat ++ '.' :: digits.drop point.toNat
  else if -5 < point && point ≤ 0 then '0' :: '.' :: (zeros (-point) ++ digits)
  else
    let exponent := point - 1
    let sign := if exponent < 0 then ['-'] else []
    let rest := digits.drop 1
    digits.take 1 ++ (if rest.isEmpty then [] else '.' :: rest) ++ 'e' :: sign
      ++ Nat.toDigits 10 exponent.natAbs

/-- A finite number given by its bits, as it is written. -/
def render (bits : UInt64) : String :=
  let sign := if bits >>> 63 = 1 then ['-'] else []
  let size := bits &&& 0x7FFFFFFFFFFFFFFF
  String.ofList (sign ++ if size = 0 then ['0', '.', '0'] else (shortest size).written)

end ArchiveVfs.Decimal
