import KerberosHttp.Transport.Basic

/-!
# The scripted transport

A transport that sends nothing and answers each request as its script says.  The
last answer of the script is repeated.
-/

namespace KerberosHttp

/-- How a scripted transport answers one request. -/
structure ScriptedReply where
  /-- The failure of the attempt to connect, if it fails -/
  connectFailure : Option TransportError
  /-- The response, or the failure to open it -/
  input : Except IoError Stream
  /-- The entity of the error, if there is one -/
  error : Option Stream

/-- The answer where a script has none: success without an entity. -/
instance : Inhabited ScriptedReply := ⟨⟨none, .ok ⟨[], none⟩, none⟩⟩

/-- A transport that follows a script. -/
structure ScriptedTransport where
  script : List ScriptedReply
  /-- How often a connection was attempted -/
  connects : Nat

namespace ScriptedTransport

def ofScript (script : List ScriptedReply) : ScriptedTransport := ⟨script, 0⟩

/-- The answer to the request that was sent last. -/
def reply (transport : ScriptedTransport) : ScriptedReply :=
  let index := min transport.connects transport.script.length
  if transport.connects = 0 then default else transport.script[index - 1]?.getD default

instance : HttpTransport ScriptedTransport where
  addHeader transport _ := transport
  connect transport _ _ :=
    let after := { transport with connects := transport.connects + 1 }
    match after.reply.connectFailure with
    | some error => (.error error, after)
    | none => (.ok (), after)
  openInput transport := (transport.reply.input, transport)
  openError transport := (transport.reply.error, transport)
  disconnect transport := transport

end ScriptedTransport

end KerberosHttp
