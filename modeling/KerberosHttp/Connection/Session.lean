import KerberosHttp.Connection.Basic
import KerberosHttp.Url.Ascii

/-!
# Sessions

The life of a connection: calls, closings, the release of its transport, and its
end.  A transport that was released lives on by itself.

A program that runs a session reads addresses with the reader that is imported here;
the definitions take any.
-/

namespace KerberosHttp

inductive SessionAction
  | call (request : Soap.Message) (endpoint : String)
  | close
  /-- Takes the transport out of the connection. -/
  | release
  /-- Ends the connection, and its transport with it if it still owns one. -/
  | drop
  /-- Ends the transport that was released. -/
  | dropReleased

inductive SessionResult
  /-- A call had an answer or failed. -/
  | answered (answer : Except CallError Soap.Message)
  | closed
  /-- Whether there was a transport to take -/
  | released (was : Bool)
  | dropped
  /-- Whether there was a released transport to end -/
  | releasedDropped (was : Bool)
  /-- The connection has ended. -/
  | refused

/-- A connection and the transport that was taken out of it. -/
structure Session (σ : Type) where
  connection : Option (Connection σ)
  released : Option σ

/-- What came of an action: the result, what was reported, and the transport that has
ended. -/
structure SessionStep (σ : Type) where
  result : SessionResult
  session : Session σ
  log : Log
  ended : Option σ

namespace Session

variable {σ : Type} [HttpTransport σ]

def ofConnection (connection : Connection σ) : Session σ := ⟨some connection, none⟩

/-- Ends the connection.  It disconnects its transport first. -/
def drop (session : Session σ) : SessionStep σ :=
  ⟨.dropped, { session with connection := none }, [],
    session.connection.bind (·.close.transport)⟩

/-- Ends the transport that was released. -/
def dropReleased (session : Session σ) : SessionStep σ :=
  ⟨.releasedDropped session.released.isSome, { session with released := none }, [],
    session.released⟩

def step [Url.Reader] (session : Session σ) : SessionAction → SessionStep σ
  | .drop => session.drop
  | .dropReleased => session.dropReleased
  | action =>
    match session.connection, action with
    | some connection, .call request endpoint =>
      let (answer, connection, log) := connection.call request endpoint
      ⟨.answered answer, { session with connection := some connection }, log, none⟩
    | some connection, .close =>
      ⟨.closed, { session with connection := some connection.close }, [], none⟩
    | some connection, .release =>
      let (transport, connection) := connection.release
      ⟨.released transport.isSome,
        ⟨some connection, transport.or session.released⟩, [], none⟩
    | _, _ => ⟨.refused, session, [], none⟩

end Session

end KerberosHttp
