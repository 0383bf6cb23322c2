import KerberosHttp.Transport.Basic

/-!
# The recording transport

A transport that sends nothing: it keeps every request that reaches it and answers
all of them in the same way.
-/

namespace KerberosHttp

/-- A request as it reached a transport. -/
structure RecordedRequest where
  endpoint : Url
  headers : HeaderMap
  body : Bytes
  deriving DecidableEq

/-- The first value of a header as text, if the name is one and the value printable. -/
def RecordedRequest.header? (request : RecordedRequest) (name : String) : Option String := do
  let name ← HeaderName.ofString? name
  let value ← request.headers.get? name
  value.toString?

/-- How a recording transport answers. -/
inductive Reply
  /-- With success and an entity. -/
  | success (entity : Bytes)
  /-- With an error status, and perhaps an entity. -/
  | failure (entity : Option Bytes)
  /-- With a stream that breaks while it is read, and an entity of an error. -/
  | broken (entity : Bytes)
  deriving DecidableEq, Repr

/-- A transport that keeps every request. -/
structure RecordingTransport where
  /-- The headers that are queued -/
  pending : HeaderMap
  /-- The requests so far, in order -/
  requests : List RecordedRequest
  reply : Reply
  /-- The failure of the next attempt to connect, if it is to fail -/
  connectFailure : Option TransportError
  connected : Bool
  /-- How often it was disconnected -/
  disconnects : Nat
  deriving DecidableEq

namespace RecordingTransport

/-- A transport that answers as given and has done nothing yet. -/
def ofReply (reply : Reply) : RecordingTransport := ⟨[], [], reply, none, false, 0⟩

/-- A transport that answers with success and no entity. -/
instance : Inhabited RecordingTransport := ⟨ofReply (.success [])⟩

/-- The failure of a stream that is asked for without a connection. -/
def notConnected : IoError := ⟨.notConnected, "not connected"⟩

/-- The failure of the response to a request that failed. -/
def errorStatus : IoError := ⟨.other, "server returned HTTP 500"⟩

/-- The failure of a stream that breaks. -/
def connectionReset : IoError := ⟨.connectionReset, "connection reset while reading response"⟩

/-- What arrives before a stream breaks. -/
def beginning : Bytes := Bytes.ofAscii "<env:Envel"

def inputStream (transport : RecordingTransport) : Except IoError Stream :=
  if transport.connected then
    match transport.reply with
    | .success entity => .ok (.ofBytes entity)
    | .failure _ => .error errorStatus
    | .broken _ => .ok ⟨[.data beginning], some connectionReset⟩
  else .error notConnected

def errorStream (transport : RecordingTransport) : Option Stream :=
  if transport.connected then
    match transport.reply with
    | .success _ => none
    | .failure entity => entity.map .ofBytes
    | .broken entity => some (.ofBytes entity)
  else none

instance : HttpTransport RecordingTransport where
  addHeader transport header := { transport with pending := transport.pending ++ [header] }
  connect transport endpoint body :=
    let request : RecordedRequest := ⟨endpoint, transport.pending, body⟩
    let recorded := { transport with pending := [], requests := transport.requests ++ [request] }
    match transport.connectFailure with
    | some error => (.error error, { recorded with connectFailure := none })
    | none => (.ok (), { recorded with connected := true })
  openInput transport := (transport.inputStream, transport)
  openError transport := (transport.errorStream, transport)
  disconnect transport :=
    { transport with pending := [], connected := false, disconnects := transport.disconnects + 1 }

end RecordingTransport

end KerberosHttp
