import KerberosHttp.Text.Ascii
import KerberosHttp.Text.Utf8

/-!
# Percent-encoding

Each part of an address has its own set of characters that must not stand in it
as themselves.  Such a character is written as its UTF-8 octets, each as a
percent sign and two hexadecimal digits.  A character outside ASCII is always
written so, and a percent sign never is: what is encoded already stays as it is.
-/

namespace KerberosHttp.Url

/-- Characters that must be encoded. -/
abbrev EncodeSet := Char → Bool

/-- Controls and whatever is not ASCII. -/
def EncodeSet.controls : EncodeSet := fun c => c.toNat < 32 || 126 < c.toNat

/-- A set with some more characters in it. -/
def EncodeSet.with (set : EncodeSet) (more : String) : EncodeSet :=
  fun c => set c || more.toList.contains c

def EncodeSet.fragment : EncodeSet := EncodeSet.controls.with " \"<>\x60"

def EncodeSet.query : EncodeSet := EncodeSet.controls.with " \"#<>"

def EncodeSet.specialQuery : EncodeSet := EncodeSet.query.with "'"

def EncodeSet.path : EncodeSet := EncodeSet.fragment.with "#?\x7b\x7d"

def EncodeSet.userinfo : EncodeSet := EncodeSet.path.with "/:;=@[\\]^|"

/-- Two upper-case hexadecimal digits. -/
def hexPair (octet : UInt8) : List Char :=
  let digit (n : Nat) : Char := Char.ofNat (if n < 10 then n + '0'.toNat else n - 10 + 'A'.toNat)
  [digit (octet.toNat / 16), digit (octet.toNat % 16)]

/-- A character as it stands in a part with the given set. -/
def percentEncodeChar (set : EncodeSet) (c : Char) : List Char :=
  if set c then (String.utf8EncodeChar c).flatMap fun octet => '%' :: hexPair octet else [c]

/-- Characters as they stand in a part with the given set. -/
def percentEncode (set : EncodeSet) (chars : List Char) : List Char :=
  chars.flatMap (percentEncodeChar set)

/-- The octets that an encoded text stands for.  A percent sign without two digits
after it stands for itself. -/
def percentDecode : List Char → Bytes
  | [] => []
  | '%' :: high :: low :: rest =>
    match Ascii.hexValue? high, Ascii.hexValue? low with
    | some high', some low' => (high' * 16 + low').toUInt8 :: percentDecode rest
    | _, _ => '%'.toUInt8 :: percentDecode (high :: low :: rest)
  | c :: rest => String.utf8EncodeChar c ++ percentDecode rest

end KerberosHttp.Url
