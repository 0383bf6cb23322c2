/-!
# The shortest decimal of a binary fraction

A finite double is m · 2^q, and every real of a certain interval around it
rounds to it.  `shortest` finds the decimal with the fewest digits in that
interval, the one nearest to the double if there are several, and the even one
of two that are equally near.

## Strategy

A decimal with digits above a place is a multiple of a power of ten.  If the
interval holds a multiple at all, it holds one of the two neighbours of the
double, so each power of ten needs two comparisons, in whole numbers.  The
powers are tried from the greatest down.
-/

namespace KerberosHttp.Decimal

/-- A positive real with the reals that round to it, all as multiples of
`1 / scale`. -/
structure Rounding where
  /-- The least real that may round to it -/
  low : Nat
  value : Nat
  /-- The greatest real that may round to it -/
  high : Nat
  /-- What the other three are divided by -/
  scale : Nat
  /-- Whether `low` and `high` round to it themselves -/
  closed : Bool

/-- A positive decimal: `digits` times ten to the power `exponent`. -/
structure Digits where
  digits : Nat
  exponent : Int
  deriving DecidableEq, Repr

/-- What the bit is worth that a double of full precision does not write: 2^52. -/
def hiddenBit : Nat := 0x10000000000000

def exponentBits (bits : UInt64) : Nat := bits.toNat / hiddenBit % 2048

def significandBits (bits : UInt64) : Nat := bits.toNat % hiddenBit

def isNegative (bits : UInt64) : Bool := 0x8000000000000000 ≤ bits.toNat

def isZero (bits : UInt64) : Bool := bits.toNat % 0x8000000000000000 = 0

/-- The magnitude of a finite double other than zero, with its interval.  Below a
power of two the doubles are twice as dense as above it. -/
def Rounding.ofBits (bits : UInt64) : Rounding :=
  let field := exponentBits bits
  let significand := if field = 0 then significandBits bits else significandBits bits + hiddenBit
  let exponent : Int := (if field = 0 then 1 else field : Nat) - 1077
  let up := Nat.pow 2 exponent.toNat
  let narrow := significandBits bits = 0 ∧ 1 < field
  { low := (4 * significand - (if narrow then 1 else 2)) * up
    value := 4 * significand * up
    high := (4 * significand + 2) * up
    scale := Nat.pow 2 (-exponent).toNat
    closed := significand % 2 = 0 }

/-- Whether `multiple / unit` rounds to the value, all in multiples of `1 / scale`. -/
def Rounding.holds (r : Rounding) (down unit multiple : Nat) : Bool :=
  if r.closed then r.low * down ≤ multiple * unit && multiple * unit ≤ r.high * down
  else r.low * down < multiple * unit && multiple * unit < r.high * down

/-- The multiple of ten to the power `exponent` that rounds to the value and is
nearest to it, if one does. -/
def Rounding.multiple? (r : Rounding) (exponent : Int) : Option Nat :=
  let down := Nat.pow 10 (-exponent).toNat
  let unit := Nat.pow 10 exponent.toNat * r.scale
  let below := r.value * down / unit
  let twice := 2 * (r.value * down % unit)
  let nearer := if twice < unit ∨ (twice = unit ∧ below % 2 = 0) then below else below + 1
  match r.holds down unit below, r.holds down unit (below + 1) with
  | true, true => some nearer
  | true, false => some below
  | false, true => some (below + 1)
  | false, false => none

/-- The shortest decimal of a finite double other than zero. -/
def shortest (bits : UInt64) : Digits :=
  let r := Rounding.ofBits bits
  let places := (List.range 634).map fun (place : Nat) => 309 - (place : Int)
  match places.findSome? fun exponent => (r.multiple? exponent).map (Digits.mk · exponent) with
  | some digits => digits
  | none => ⟨0, 0⟩

end KerberosHttp.Decimal
