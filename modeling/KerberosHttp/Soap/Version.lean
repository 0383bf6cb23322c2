import KerberosHttp.Bytes

/-!
# SOAP versions

Two versions of the protocol, told apart by the name space of the envelope.
-/

namespace KerberosHttp.Soap

inductive Version
  | v1_1
  | v1_2
  deriving DecidableEq, Repr

/-- Messages are of the later version unless something else is said. -/
instance : Inhabited Version := ⟨.v1_2⟩

/-- The name space of an envelope. -/
def Version.uri : Version → String
  | .v1_1 => "http://schemas.xmlsoap.org/soap/envelope/"
  | .v1_2 => "http://www.w3.org/2003/05/soap-envelope"

/-- The octets of the name space of an envelope. -/
def Version.uriBytes (version : Version) : Bytes := Bytes.ofAscii version.uri

def Version.name : Version → String
  | .v1_1 => "SOAP 1.1"
  | .v1_2 => "SOAP 1.2"

/-- The content type of a request of a version that names none. -/
def Version.contentType : Version → String
  | .v1_1 => "text/xml; charset=UTF-8;"
  | .v1_2 => "application/soap+xml; charset=UTF-8;"

end KerberosHttp.Soap
