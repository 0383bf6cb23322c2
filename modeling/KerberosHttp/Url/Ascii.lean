import KerberosHttp.Url.Parse

/-!
# The reader that runs

A program needs one reader of addresses.  This one brings names into ASCII without
the tables of internationalised names, so it can be trusted with names that are in
ASCII as they are, and with no others: a name outside ASCII it refuses, and a label
that begins with `xn--` it takes without looking at what the label encodes.

What is proved of calls is proved for every `Url.Reader` and does not depend on this
one.
-/

namespace KerberosHttp.Url

/-- Whether a character must not stand in a name under a special scheme. -/
def isForbiddenInDomain (c : Char) : Bool :=
  c.toNat ≤ 32 || c.toNat = 127 || isForbiddenInHost c || c = '%'

/-- A name in ASCII, in small letters, if no character of it is forbidden. -/
def asciiDomain? : DomainToAscii := fun octets =>
  let name := octets.map fun octet => Char.ofNat octet.toNat
  if name.any fun c => 128 ≤ c.toNat || isForbiddenInDomain c then none
  else some (name.map Char.toLower)

instance : Reader where
  read := readAbsolute asciiDomain?

end KerberosHttp.Url
