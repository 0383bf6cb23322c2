import KerberosHttp.Text.Ascii
import KerberosHttp.Text.Utf8

/-!
# HTTP headers

Names and values that may be sent.  A `HeaderName` is a token in lower case; a
`HeaderValue` holds no control octet but the tab.  Both carry the proof, so that
nothing which accepts one can be made to write a line break into a request.

`HeaderMap` keeps the headers of one message in the order in which they were
added, several values of one name included.
-/

namespace KerberosHttp

/-- Whether a character may stand in a header name. -/
def isTokenChar (c : Char) : Bool :=
  c.isAlphanum || "!#$%&'*+-.^_\x60|~".toList.contains c

/-- Whether a text is a token in lower case that is short enough for a name. -/
def isHeaderName (text : String) : Bool :=
  !text.toList.isEmpty && Nat.ble text.length 65535
    && text.toList.all fun c => isTokenChar c && !c.isUpper

/-- A header name: a token in lower case. -/
structure HeaderName where
  text : String
  valid : isHeaderName text = true
  deriving DecidableEq

namespace HeaderName

/-- The name that a text spells in any case, if it is a token. -/
def ofString? (text : String) : Option HeaderName :=
  let name := Ascii.lowercase text
  if h : isHeaderName name = true then some ⟨name, h⟩ else none

def authorization : HeaderName := ⟨"authorization", by decide +kernel⟩

def contentType : HeaderName := ⟨"content-type", by decide +kernel⟩

def soapAction : HeaderName := ⟨"soapaction", by decide +kernel⟩

end HeaderName

/-- Whether an octet may stand in a header value: any but the controls, of which
only the tab is allowed. -/
def isSendable (octet : UInt8) : Bool :=
  octet == 9 || (32 ≤ octet && octet != 127)

/-- A header value: octets that may be sent. -/
structure HeaderValue where
  content : Bytes
  sendable : content.all isSendable = true
  deriving DecidableEq

namespace HeaderValue

/-- The value made of some octets, if they may be sent. -/
def ofBytes? (content : Bytes) : Option HeaderValue :=
  if h : content.all isSendable = true then some ⟨content, h⟩ else none

/-- The value that a text spells in UTF-8, if it may be sent. -/
def ofString? (text : String) : Option HeaderValue :=
  ofBytes? (Utf8.encode text)

/-- Whether an octet is a printable ASCII character or a tab. -/
def isVisible (octet : UInt8) : Bool :=
  octet == 9 || (32 ≤ octet && octet < 127)

/-- The value as text, if it is printable ASCII. -/
def toString? (value : HeaderValue) : Option String :=
  if value.content.all isVisible then
    some (String.ofList (value.content.map fun octet => Char.ofNat octet.toNat))
  else none

/-- One octet in the quoted form of a value. -/
def quoteOctet (octet : UInt8) : String :=
  if octet = '"'.toUInt8 then "\\\""
  else if isVisible octet then (Char.ofNat octet.toNat).toString
  else "\\x" ++ Ascii.hex octet.toNat

/-- The value as diagnostics show it: between quotes, with the octets that are not
printable ASCII in hexadecimal. -/
def quoted (value : HeaderValue) : String :=
  "\"" ++ String.join (value.content.map quoteOctet) ++ "\""

end HeaderValue

/-- A header: a name and one value. -/
structure Header where
  name : HeaderName
  value : HeaderValue
  deriving DecidableEq

/-- Why a pair of a name and a value is no header. -/
inductive HeaderError
  | name
  | value
  deriving DecidableEq, Repr

def HeaderError.message : HeaderError → String
  | .name => "invalid HTTP header name"
  | .value => "failed to parse header value"

/-- The header of a name and a value; the name is looked at first. -/
def Header.ofPair (name : String) (value : Bytes) : Except HeaderError Header :=
  match HeaderName.ofString? name with
  | none => .error .name
  | some name =>
    match HeaderValue.ofBytes? value with
    | none => .error .value
    | some value => .ok ⟨name, value⟩

/-- The headers of one message, in the order in which they were added. -/
abbrev HeaderMap := List Header

namespace HeaderMap

/-- All values of a name, in the order in which they were added. -/
def getAll (headers : HeaderMap) (name : HeaderName) : List HeaderValue :=
  (headers.filter (·.name = name)).map (·.value)

def get? (headers : HeaderMap) (name : HeaderName) : Option HeaderValue :=
  (headers.find? (·.name = name)).map (·.value)

theorem get?_eq_head?_getAll (headers : HeaderMap) (name : HeaderName) :
    headers.get? name = (headers.getAll name).head? := by
  simp [get?, getAll, List.head?_filter]

end HeaderMap

end KerberosHttp
