import KerberosHttp.Decimal.Shortest
import KerberosHttp.Json.Token

/-!
# The value of a JSON number

An integer that fits in 64 bits is itself.  Every other number is a double: the
digits that fit in 64 bits, scaled by a power of ten in one or more floating
operations.  That is quick and may miss the nearest double by a little; what
matters here is that a magnitude above the greatest double has no value at all.
-/

namespace KerberosHttp.Json

inductive Number
  | integer (value : Int)
  | real (value : Float)

/-- The greatest unsigned integer of 64 bits. -/
def maxSignificand : Nat := 0xFFFFFFFFFFFFFFFF

/-- The greatest exponent that is kept as it is written. -/
def maxExponent : Nat := 0x7FFFFFFF

/-- The digits read into an integer, and how many were left out at the end. -/
structure Significand where
  value : Nat
  omitted : Nat
  deriving DecidableEq, Repr

/-- Reads digits as long as the integer fits in 64 bits. -/
def Significand.read (start : Nat) : List Nat → Significand
  | [] => ⟨start, 0⟩
  | digit :: rest =>
    if start * 10 + digit ≤ maxSignificand then Significand.read (start * 10 + digit) rest
    else ⟨start, rest.length + 1⟩

/-- The exponent that digits spell, none if it is too great. -/
def readExponent (start : Nat) : List Nat → Option Nat
  | [] => some start
  | digit :: rest =>
    if start * 10 + digit ≤ maxExponent then readExponent (start * 10 + digit) rest else none

/-- Ten to a power, as the nearest double. -/
def tenTo (power : Nat) : Float := Float.ofScientific 1 false power

/-- A magnitude over ten to a power.  Each step divides by at most ten to the power
308, and a few of them make any magnitude zero. -/
def scaleDown (magnitude : Float) (power : Nat) : Nat → Float
  | 0 => magnitude
  | steps + 1 =>
    if power ≤ 308 then magnitude / tenTo power
    else if magnitude == 0 then magnitude
    else scaleDown (magnitude / tenTo 308) (power - 308) steps

/-- The double of a significand and an exponent, none if it is out of range. -/
def scale? (significand : Nat) (exponent : Int) : Option Float :=
  let magnitude := significand.toUInt64.toFloat
  if exponent < 0 then some (scaleDown magnitude (-exponent).toNat 5)
  else if exponent ≤ 308 then
    let result := magnitude * tenTo exponent.toNat
    if result.isInf then none else some result
  else if significand = 0 then some magnitude
  else none

/-- The magnitude of a number with a point, an exponent or too many digits. -/
def NumberText.magnitude? (text : NumberText) : Option Float :=
  let whole := Significand.read 0 text.whole
  let all := Significand.read whole.value text.fraction
  let shift : Int := whole.omitted - (text.fraction.length - all.omitted : Nat)
  match readExponent 0 text.exponent with
  | some exponent =>
    scale? all.value (if text.exponentNegative then shift - exponent else shift + exponent)
  | none => if all.value ≠ 0 ∧ !text.exponentNegative then none else some 0

/-- The value of a number, none if it is out of range. -/
def NumberText.value? (text : NumberText) : Option Number :=
  let whole := Significand.read 0 text.whole
  if text.isReal ∨ whole.omitted ≠ 0 then
    text.magnitude?.map fun magnitude => .real (if text.negative then -magnitude else magnitude)
  else if !text.negative then some (.integer whole.value)
  else if whole.value = 0 ∨ 0x8000000000000000 < whole.value then
    some (.real (-whole.value.toUInt64.toFloat))
  else some (.integer (-whole.value))

/-- The power of ten at the end of a decimal, which has a sign in any case. -/
def exponentText (exponent : Int) : List Char :=
  'e' :: (if exponent < 0 then '-' else '+') :: Nat.toDigits 10 exponent.natAbs

/-- How a positive decimal is written: positionally from 10^-5 up to 10^16, with a
point and at least one digit after it, and otherwise with an exponent. -/
def digitsText (number : Decimal.Digits) : String :=
  let digits := Nat.toDigits 10 number.digits
  let length : Int := digits.length
  let point := length + number.exponent
  let text :=
    if 0 ≤ number.exponent ∧ point ≤ 16 then
      digits ++ List.replicate number.exponent.toNat '0' ++ ['.', '0']
    else if 0 < point ∧ point ≤ 16 then
      digits.take point.toNat ++ '.' :: digits.drop point.toNat
    else if -5 < point ∧ point ≤ 0 then
      '0' :: '.' :: List.replicate (-point).toNat '0' ++ digits
    else
      let exponent := exponentText (point - 1)
      match digits with
      | [digit] => digit :: exponent
      | first :: rest => first :: '.' :: rest ++ exponent
      | [] => []
  String.ofList text

def realText (value : Float) : String :=
  let bits := value.toBits
  let sign := if Decimal.isNegative bits then "-" else ""
  if Decimal.isZero bits then sign ++ "0.0"
  else sign ++ digitsText (Decimal.shortest bits)

end KerberosHttp.Json
