import Merkle.Json.Reader

/-!
# Numbers: their text and their value

`Numeral` is a number as it is written, and `scan` reads one. Its value is an integer when it has
neither fraction nor exponent and fits 64 bits. Otherwise it is a double: as many leading digits as
64 bits hold, times a power of ten, with one rounding each.
-/
namespace Merkle.Json

/-- The exponent of a numeral: its sign and its digits. -/
structure Exponent where
  negative : Bool
  digits : List UInt8
  deriving DecidableEq, Repr

/-- A number as it is written; digits are ASCII. -/
structure Numeral where
  negative : Bool
  whole : List UInt8
  fraction : Option (List UInt8)
  exponent : Option Exponent
  deriving DecidableEq, Repr

/-- The value of a number; a double is given by its bits. -/
inductive Number where
  | integer (value : Int)
  | double (bits : UInt64)
  deriving DecidableEq, Repr

/-- The value of a decimal digit. -/
def digitValue (b : UInt8) : Nat := b.toNat - 0x30

/-! ## Reading -/

/-- The digits before the point; there is only one zero in front. A digit that is missing because
the text ends is the fault `atEnd`. -/
def scanWhole (atEnd : Fault) : Reader (List UInt8) := do
  match ← Reader.next? with
  | none => Reader.fail atEnd
  | some first =>
    if first = 0x30 then
      if ((← Reader.peek).any isDigit) then Reader.failNext .invalidNumber else pure [first]
    else if isDigit first then return first :: (← Reader.takeWhile isDigit)
    else Reader.fail .invalidNumber

/-- A point with digits, if there is a point. -/
def scanFraction (atEnd : Fault) : Reader (Option (List UInt8)) := do
  if (← Reader.peek) = some point then
    Reader.skip
    let digits ← Reader.takeWhile isDigit
    if digits.isEmpty then
      if (← Reader.peek).isNone then Reader.failNext atEnd else Reader.failNext .invalidNumber
    else pure (some digits)
  else pure none

/-- The sign of an exponent, if it has one. -/
def scanSign : Reader Bool := do
  let sign ← Reader.peek
  if sign = some plus ∨ sign = some minus then Reader.skip
  pure (sign = some minus)

/-- An exponent, if there is one. -/
def scanExponent (atEnd : Fault) : Reader (Option Exponent) := do
  let mark ← Reader.peek
  if mark = some letterE ∨ mark = some capitalE then
    Reader.skip
    let negative ← scanSign
    match ← Reader.next? with
    | none => Reader.fail atEnd
    | some first =>
      if isDigit first then return some ⟨negative, first :: (← Reader.takeWhile isDigit)⟩
      else Reader.fail .invalidNumber
  else pure none

/-- A numeral, from its sign or first digit on. -/
def scan (atEnd : Fault) : Reader Numeral := do
  let negative := (← Reader.peek) = some minus
  if negative then Reader.skip
  let whole ← scanWhole atEnd
  let fraction ← scanFraction atEnd
  let exponent ← scanExponent atEnd
  pure ⟨negative, whole, fraction, exponent⟩

/-! ## Value -/

/-- Appends decimal digits to a number while it stays below `limit`; the digits that are left over
come with it. -/
def appendDigits (limit : Nat) (n : Nat) : List UInt8 → Nat × List UInt8
  | [] => (n, [])
  | b :: rest =>
    let longer := 10 * n + digitValue b
    if longer < limit then appendDigits limit longer rest else (n, b :: rest)

/-- A power of ten up to `1e308`, as the nearest double. -/
def powerOfTen (e : Nat) : Float := Float.ofScientific 1 false e

/-- A double divided by a power of ten, by at most `1e308` at a time. -/
def divideByPower (x : Float) (e : Nat) : Float :=
  if e ≤ 308 then x / powerOfTen e
  else if x == 0 then x
  else divideByPower (x / powerOfTen 308) (e - 308)
termination_by e

/-- A significand times a power of ten; none when that is beyond the greatest double. -/
def scaled? (significand : UInt64) (e : Int) : Option Float :=
  let x := significand.toFloat
  if e < 0 then some (divideByPower x (-e).toNat)
  else if e ≤ 308 then
    let y := x * powerOfTen e.toNat
    if y.isInf then none else some y
  else if x == 0 then some x
  else none

namespace Numeral

/-- The digits that 64 bits hold, and the power of ten that stands for the place of the last. -/
def significand (n : Numeral) : UInt64 × Int :=
  let (whole, restOfWhole) := appendDigits UInt64.size 0 n.whole
  let fraction := n.fraction.getD []
  let (all, restOfFraction) := appendDigits UInt64.size whole fraction
  (UInt64.ofNat all, (restOfWhole.length : Int) + restOfFraction.length - fraction.length)

/-- The integer that a numeral without fraction and exponent stands for, if it fits 64 bits. Zero
with a sign is no integer. -/
def integer? (n : Numeral) : Option Int :=
  match n.fraction, n.exponent, appendDigits UInt64.size 0 n.whole with
  | none, none, (value, []) =>
    if !n.negative then some value
    else if 0 < value ∧ value ≤ UInt64.size / 2 then some (-value)
    else none
  | _, _, _ => none

/-- A double with the sign of the numeral. -/
def signed (n : Numeral) (x : Float) : Number := .double (if n.negative then -x else x).toBits

/-- The value of a numeral. When it is beyond the greatest double, the count of digits at its end
that are not looked at. -/
def value (n : Numeral) : Except Nat Number :=
  match n.integer? with
  | some i => .ok (.integer i)
  | none =>
    let (significand, place) := n.significand
    let exponent := n.exponent.getD ⟨false, []⟩
    match appendDigits (UInt32.size / 2) 0 exponent.digits with
    | (e, []) =>
      match scaled? significand (if exponent.negative then place - e else place + e) with
      | some x => .ok (n.signed x)
      | none => .error 0
    | (_, _ :: ignored) =>
      if significand = 0 ∨ exponent.negative then .ok (n.signed 0) else .error ignored.length

end Numeral

/-- A number, from its sign or first digit on. -/
def number : Reader Number := do
  let numeral ← scan (.endOfInput .value)
  match numeral.value with
  | .ok n => pure n
  | .error ignored => Reader.failEarlier ignored .numberOutOfRange

end Merkle.Json
