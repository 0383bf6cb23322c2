import KerberosHttp.Text.Ascii

/-!
# Failures of transports and credentials

What goes wrong outside this library: on the network, in the security layer, or
when the two sides negotiate.
-/

namespace KerberosHttp

inductive IoKind
  | connectionReset
  | timedOut
  | unexpectedEof
  | notConnected
  | brokenPipe
  | invalidData
  | other
  deriving DecidableEq, Repr

/-- A failure to read or write. -/
structure IoError where
  kind : IoKind
  text : String
  deriving DecidableEq, Repr

/-- A failure that a transport or a credential reports. -/
inductive TransportError
  | negotiation (text : String)
  /-- The security layer failed with two status codes. -/
  | gss (major minor : Nat) (text : String)
  | io (cause : IoError)
  deriving DecidableEq, Repr

def TransportError.message : TransportError → String
  | .negotiation text => "SPNEGO negotiation failed: " ++ text
  | .gss major minor text =>
    "GSS failure (major 0x" ++ Ascii.hex major ++ ", minor 0x" ++ Ascii.hex minor ++ "): " ++ text
  | .io cause => "transport I/O failure: " ++ cause.text

/-- The wordings of the errors that caused it, the nearest first. -/
def TransportError.sources : TransportError → List String
  | .io cause => [cause.text]
  | _ => []

end KerberosHttp
