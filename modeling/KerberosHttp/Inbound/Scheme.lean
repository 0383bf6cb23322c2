import KerberosHttp.Bytes

/-!
# Authentication schemes

The scheme that an `Authorization` header names.  The value begins with the
scheme's token, in exactly this case, and may go on with anything.
-/

namespace KerberosHttp

inductive AuthScheme
  | negotiate
  | basic
  /-- Neither of the others -/
  | unset
  deriving DecidableEq, Repr

namespace AuthScheme

def token? : AuthScheme → Option String
  | negotiate => some "Negotiate"
  | basic => some "Basic"
  | unset => none

def display (scheme : AuthScheme) : String := scheme.token?.getD "unset"

/-- The scheme that a header value names. -/
def ofBytes (value : Bytes) : AuthScheme :=
  if (Bytes.ofAscii "Negotiate").isPrefixOf value then negotiate
  else if (Bytes.ofAscii "Basic").isPrefixOf value then basic
  else unset

end AuthScheme

end KerberosHttp
