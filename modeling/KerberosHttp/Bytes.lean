/-!
# Octets

Whatever crosses the wire is a list of octets: request entities, response
entities, header values.  Lists rather than packed arrays, because everything
that reads them is a recursion from the front.
-/

namespace KerberosHttp

/-- Content as it travels. -/
abbrev Bytes := List UInt8

namespace Bytes

/-- The octets of an ASCII text, one for each character. -/
def ofAscii (text : String) : Bytes :=
  text.toList.map Char.toUInt8

/-- What follows `start` in `content`, if `content` begins with it. -/
def dropStart? (start content : Bytes) : Option Bytes :=
  if start.isPrefixOf content then some (content.drop start.length) else none

end Bytes

end KerberosHttp
