import ArchiveVfs.Json.Fault

/-!
# Numbers of JSON texts

A number has a whole part without leading zeros, perhaps a fraction and perhaps an
exponent. Whole numbers that fit 64 bits are exact. All others take as many digits
as fit 64 bits and are scaled by a power of ten, so that their last bit may differ
from the nearest one.
-/

namespace ArchiveVfs.Json

/-- A number as it is written, without its sign. -/
structure Written where
  /-- The digits of the whole part. -/
  whole : List Char
  /-- The digits behind the point. -/
  fraction : Option (List Char) := none
  /-- Whether the exponent is negative, and its digits. -/
  exponent : Option (Bool × List Char) := none
  deriving DecidableEq, Repr

/-- Reads digits, at least one; `atEnd` is the complaint if the text ends instead. -/
def readDigits (atEnd : Complaint) (cs : List Char) : Except Fault (List Char × List Char) :=
  match cs with
  | [] => .error (.atEnd atEnd)
  | c :: rest =>
    if c.isDigit then .ok ((c :: rest).takeWhile Char.isDigit, (c :: rest).dropWhile Char.isDigit)
    else .error (.atNext .badNumber (c :: rest))

/-- Reads the whole part of a number. -/
def readWhole (atEnd : Complaint) : List Char → Except Fault (List Char × List Char)
  | '0' :: rest =>
    if (rest.takeWhile Char.isDigit).isEmpty then .ok (['0'], rest)
    else .error (.atNext .badNumber rest)
  | cs => readDigits atEnd cs

/-- Reads a fraction, if a point follows. -/
def readFraction (atEnd : Complaint) : List Char → Except Fault (Option (List Char) × List Char)
  | '.' :: rest => (readDigits atEnd rest).map fun parts => (some parts.1, parts.2)
  | cs => .ok (none, cs)

/-- The sign of an exponent, and what follows it. -/
def exponentSign : List Char → Bool × List Char
  | '+' :: rest => (false, rest)
  | '-' :: rest => (true, rest)
  | cs => (false, cs)

/-- Reads an exponent, if its letter follows. -/
def readExponent (atEnd : Complaint) :
    List Char → Except Fault (Option (Bool × List Char) × List Char)
  | [] => .ok (none, [])
  | e :: rest =>
    if e = 'e' || e = 'E' then
      let (isNegative, rest) := exponentSign rest
      (readDigits atEnd rest).map fun parts => (some (isNegative, parts.1), parts.2)
    else .ok (none, e :: rest)

/-- Reads a number without its sign, as it is written. -/
def readWritten (atEnd : Complaint) (cs : List Char) : Except Fault (Written × List Char) := do
  let (whole, rest) ← readWhole atEnd cs
  let (fraction, rest) ← readFraction atEnd rest
  let (exponent, rest) ← readExponent atEnd rest
  return ({ whole, fraction, exponent }, rest)

/-! ## Values -/

/-- The value of a digit. -/
def digitValue (c : Char) : Nat :=
  c.toNat - 48

/-- Takes digits into a number of 64 bits; from the first one that does not fit, all are
left over. The number, and the number of digits left over. -/
def takeDigits (value : Nat) : List Char → Nat × Nat
  | [] => (value, 0)
  | c :: rest =>
    let next := 10 * value + digitValue c
    if next < UInt64.size then takeDigits next rest else (value, rest.length + 1)

/-- The largest exponent that is counted. -/
def maxExponent : Nat := 2147483647

/-- The value of an exponent's digits; if it is too large, the digits behind the one that
makes it so. -/
def exponentValue (value : Nat) : List Char → Except (List Char) Nat
  | [] => .ok value
  | c :: rest =>
    let next := 10 * value + digitValue c
    if next ≤ maxExponent then exponentValue next rest else .error rest

/-- The largest power of ten that scales at once. -/
def maxScale : Nat := 308

/-- A power of ten. -/
def powerOfTen (exponent : Nat) : Float :=
  Float.ofScientific 1 false exponent

/-- A number divided by a power of ten, in steps if the power is large. -/
def scaleDown (exponent : Nat) (value : Float) : Float :=
  if exponent ≤ maxScale then value / powerOfTen exponent
  else if value == 0 then value
  else scaleDown (exponent - maxScale) (value / powerOfTen maxScale)
termination_by exponent
decreasing_by simp [maxScale] at *; omega

/-- A whole number times a power of ten, if it is not too large. -/
def scale (significand : Nat) (exponent : Int) : Option Float :=
  let value := Float.ofNat significand
  if exponent < 0 then some (scaleDown exponent.natAbs value)
  else if exponent ≤ maxScale then
    let scaled := value * powerOfTen exponent.toNat
    if scaled.isInf then none else some scaled
  else if value == 0 then some value
  else none

/-- The value of a number that is not whole or does not fit; `rest` follows it. -/
def Written.scaled (written : Written) (rest : List Char) : Except Fault Float :=
  let (value, excess) := takeDigits 0 written.whole
  let fraction := written.fraction.getD []
  let (significand, unused) := takeDigits value fraction
  let point := (excess : Int) - (fraction.length - unused : Nat)
  let assemble (exponent : Int) : Except Fault Float :=
    match scale significand exponent with
    | some value => .ok value
    | none => .error (.before .hugeNumber rest)
  match written.exponent with
  | none => assemble point
  | some (isNegative, digits) =>
    match exponentValue 0 digits with
    | .ok exponent => assemble (if isNegative then point - exponent else point + exponent)
    | .error later =>
      if significand = 0 || isNegative then .ok 0 else .error (.before .hugeNumber (later ++ rest))

/-- Whether a number is written as a whole one. -/
def Written.isWhole (written : Written) : Bool :=
  written.fraction.isNone && written.exponent.isNone

/-- The value of a number; `rest` follows it. Zero with a sign is no whole number. -/
def Written.value (written : Written) (isNegative : Bool) (rest : List Char) :
    Except Fault Number :=
  let (value, excess) := takeDigits 0 written.whole
  if written.isWhole && excess = 0 && !isNegative then .ok (.natural value)
  else if written.isWhole && excess = 0 && 0 < value && value ≤ 0x8000000000000000 then
    .ok (.negative value)
  else
    (written.scaled rest).map fun value => .float (if isNegative then -value else value).toBits

/-- Reads a number behind its sign. -/
def readNumber (isNegative : Bool) (cs : List Char) : Except Fault (Number × List Char) := do
  let (written, rest) ← readWritten .endInValue cs
  return (← written.value isNegative rest, rest)

/-- Passes over a number behind its sign. -/
def skipNumber (cs : List Char) : Except Fault (List Char) :=
  (readWritten .badNumber cs).map (·.2)

end ArchiveVfs.Json
