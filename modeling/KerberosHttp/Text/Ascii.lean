/-!
# ASCII letters and digits

Protocol names are compared without regard to the case of the letters A to Z.
No other letter is folded: the Kelvin sign is not a `k`.
-/

namespace KerberosHttp.Ascii

/-- A text with the letters A to Z in lower case. -/
def lowercase (text : String) : String :=
  String.ofList (text.toList.map Char.toLower)

/-- Whether two names differ at most in the case of the letters A to Z. -/
def SameName (first second : String) : Prop :=
  lowercase first = lowercase second

instance (first second : String) : Decidable (SameName first second) :=
  inferInstanceAs (Decidable (lowercase first = lowercase second))

/-- An octet with the letters A to Z in lower case. -/
def lowerOctet (octet : UInt8) : UInt8 :=
  if 'A'.toUInt8 ≤ octet ∧ octet ≤ 'Z'.toUInt8 then octet + 32 else octet

/-- The value of a hexadecimal digit of either case. -/
def hexValue? (c : Char) : Option Nat :=
  if '0' ≤ c ∧ c ≤ '9' then some (c.toNat - '0'.toNat)
  else if 'a' ≤ c ∧ c ≤ 'f' then some (c.toNat - 'a'.toNat + 10)
  else if 'A' ≤ c ∧ c ≤ 'F' then some (c.toNat - 'A'.toNat + 10)
  else none

/-- The value of a digit in a base of at most sixteen. -/
def digitValue? (base : Nat) (c : Char) : Option Nat :=
  (hexValue? c).filter (· < base)

/-- A number in lower-case hexadecimal, without leading zeros. -/
def hex (n : Nat) : String :=
  String.ofList (Nat.toDigits 16 n)

/-- A number in upper-case hexadecimal, without leading zeros. -/
def upperHex (n : Nat) : String :=
  String.ofList ((Nat.toDigits 16 n).map Char.toUpper)

/-- Whether names agree with themselves, whatever their spelling. -/
theorem sameName_refl (name : String) : SameName name name := rfl

theorem SameName.symm {first second : String} (h : SameName first second) :
    SameName second first :=
  Eq.symm h

theorem SameName.trans {first second third : String} (h : SameName first second)
    (h' : SameName second third) : SameName first third :=
  Eq.trans h h'

end KerberosHttp.Ascii
