import KerberosHttp.Proofs.Connection.Isolation
import KerberosHttp.Proofs.Connection.Result
import KerberosHttp.Url.Ascii

/-!
# The entity of an error is as good as a response

A recording transport brings the same entity to a call in one of three ways, which the
call meets at different places:

```text
success   the response is the entity
failure   the response cannot be opened; the entity of the error is asked for
broken    the response begins an envelope and breaks off; the entity of the error is asked for
```

The result is the same, whatever the entity is: what was read before a response broke off
leaves no trace in it.  Without an entity the failure of the response is the result.

## Strategy

`Yields` says for any transport that the content of an answer is reached, by the response
or by the entity of the error, and `call_of_yields` that a call then depends on nothing but
the content.  What is left is that each of the three ways yields the entity
(`yields_of_brings`).
-/

namespace KerberosHttp

/-- A reply has an entity, and brings it in one of the three ways. -/
def Reply.Brings (reply : Reply) (entity : Bytes) : Prop :=
  reply = .success entity ∨ reply = .failure (some entity) ∨ reply = .broken entity

namespace Connection

/-! ## Any transport -/

section AnyTransport

variable {σ : Type} [HttpTransport σ]

/-- A content is reached on a transport that is connected, which leaves another behind. -/
inductive Yields (connected : σ) (content : Bytes) : σ → Prop
  | response {after : σ} {opened : Except IoError Stream}
      (hopen : HttpTransport.openInput connected = (opened, after))
      (hread : Stream.entity opened = .ok content) :
      Yields connected content after
  | entity {after last : σ} {opened : Except IoError Stream} {error : IoError} {entity : Stream}
      (hopen : HttpTransport.openInput connected = (opened, after))
      (hread : Stream.entity opened = .error error)
      (herror : HttpTransport.openError after = (some entity, last))
      (hentity : entity.readToEnd = .ok content) :
      Yields connected content last

/-- The result of a call does not show how its content was reached. -/
theorem call_of_yields [Url.Reader] {connection : Connection σ} {request : Soap.Message}
    {endpoint : String} {transport connected last : σ} {headers : CallHeaders} {url : Url}
    {content : Bytes}
    (howned : connection.transport = some transport)
    (hconnects : Connects request endpoint transport headers url (.ok ()) connected)
    (hyields : Yields connected content last) :
    (connection.call request endpoint).1 =
        answer (Soap.Message.ofBytes connection.responseVersion content) ∧
      (connection.call request endpoint).2.1.transport = some (HttpTransport.disconnect last) := by
  cases hyields with
  | response hopen hread => exact (Returns.answered howned hconnects hopen hread).call_eq
  | entity hopen hread herror hentity =>
      exact (Returns.explained howned hconnects hopen hread herror hentity).call_eq

end AnyTransport

/-! ## A recording transport -/

/-- However an entity is brought, it is reached. -/
theorem yields_of_brings {transport : RecordingTransport} {entity : Bytes}
    (hconnected : transport.connected = true) (hbrings : transport.reply.Brings entity) :
    Yields transport entity transport := by
  have hentity : (Stream.ofBytes entity).readToEnd = .ok entity :=
    congrArg Except.ok (List.append_nil entity)
  obtain ⟨pending, requests, reply, connectFailure, connected, disconnects⟩ := transport
  obtain rfl : connected = true := hconnected
  rcases hbrings with hreply | hreply | hreply
  · obtain rfl : reply = .success entity := hreply
    exact .response rfl hentity
  · obtain rfl : reply = .failure (some entity) := hreply
    exact .entity rfl rfl rfl hentity
  · obtain rfl : reply = .broken entity := hreply
    exact .entity rfl rfl rfl hentity

/-- For an error without an entity both streams are missing. -/
theorem open_of_failure {transport : RecordingTransport} (hconnected : transport.connected = true)
    (hreply : transport.reply = .failure none) :
    HttpTransport.openInput transport = (.error RecordingTransport.errorStatus, transport) ∧
      HttpTransport.openError transport = (none, transport) := by
  obtain ⟨pending, requests, reply, connectFailure, connected, disconnects⟩ := transport
  obtain rfl : connected = true := hconnected
  obtain rfl : reply = .failure none := hreply
  exact ⟨rfl, rfl⟩

/-- A recording transport that is not to fail connects, and keeps its reply. -/
theorem connects_recording [Url.Reader] {transport : RecordingTransport} {request : Soap.Message}
    {endpoint : String} {headers : CallHeaders} {url : Url}
    (hfailure : transport.connectFailure = none)
    (hheaders : CallHeaders.ofMime request.mime = .ok headers)
    (hparse : Url.parse endpoint = .ok url) :
    ∃ connected, Connects request endpoint transport headers url (.ok ()) connected ∧
      connected.connected = true ∧ connected.reply = transport.reply := by
  have hconnect := connect_recording transport headers.toList url request.content
  rw [hfailure] at hconnect
  exact ⟨_, ⟨hheaders, hparse, hconnect⟩, rfl, rfl⟩

/-- **An error's entity is as good as a response.**  On a recording transport that is not to
fail, the result of a message that can be sent is what the entity is as a message, in
whichever of the three ways it is brought.  For an error without an entity the result is the
failure of the response.  For every reply the transport has one more request and one more
disconnect, and nothing is queued or connected. -/
theorem call_entity_alike [Url.Reader] (transport : RecordingTransport) (version : Soap.Version)
    (request : Soap.Message) (endpoint : String) {headers : CallHeaders} {url : Url}
    (hfailure : transport.connectFailure = none)
    (hheaders : CallHeaders.ofMime request.mime = .ok headers)
    (hparse : Url.parse endpoint = .ok url) :
    (∀ entity, transport.reply.Brings entity →
      (call (⟨some transport, version⟩ : Connection RecordingTransport) request endpoint).1 =
        answer (Soap.Message.ofBytes version entity)) ∧
    (transport.reply = .failure none → ∃ connected error,
      Connects request endpoint transport headers url (.ok ()) connected ∧
      (HttpTransport.openInput connected).1 = .error error ∧
      (call (⟨some transport, version⟩ : Connection RecordingTransport) request endpoint).1 =
        .error (.soap (.message (.io error)))) ∧
    (call (⟨some transport, version⟩ : Connection RecordingTransport) request endpoint).2.1 =
      ⟨some { transport with
        pending := []
        requests := transport.requests ++
          [⟨url, transport.pending ++ headers.toList, request.content⟩]
        connected := false
        disconnects := transport.disconnects + 1 }, version⟩ := by
  obtain ⟨connected, hconnects, hconnected, hsame⟩ := connects_recording hfailure hheaders hparse
  refine ⟨?_, ?_, ?_⟩
  · intro entity hbrings
    have hyields : Yields connected entity connected :=
      yields_of_brings hconnected (hsame ▸ hbrings)
    exact (call_of_yields rfl hconnects hyields).1
  · intro hreply
    obtain ⟨hinput, herror⟩ := open_of_failure hconnected (hsame.trans hreply)
    refine ⟨connected, RecordingTransport.errorStatus, hconnects, ?_, ?_⟩
    · rw [hinput]
    · exact (Returns.silent rfl hconnects hinput rfl herror).call_eq.1
  · have hsome := Use.request?_eq_some hheaders hparse transport.pending
    have hafter : (call (⟨some transport, version⟩ : Connection RecordingTransport) request
        endpoint).2.1 = ⟨some (transport.afterUse (.call request endpoint)), version⟩ :=
      after_eq transport (.call request endpoint)
    rw [hafter, RecordingTransport.afterUse, hsome, hfailure, ite_self]
    rfl

/-- An empty message comes back in each of the three ways, and not without an entity. -/
theorem call_entity_alike_bare :
    (∀ reply : Reply, reply.Brings Soap.Message.bare.content →
      (call (ofTransport (RecordingTransport.ofReply reply)) .bare "https://host/").1 =
        .ok .bare) ∧
    (∃ error,
      (call (ofTransport (RecordingTransport.ofReply (.failure none))) .bare "https://host/").1 =
        .error (.soap (.message (.io error)))) ∧
    Reply.Brings (.broken Soap.Message.bare.content) Soap.Message.bare.content := by
  refine ⟨?_, ?_, .inr (.inr rfl)⟩
  · intro reply hbrings
    obtain ⟨hresult, -, -⟩ :=
      call_entity_alike (.ofReply reply) .v1_2 .bare "https://host/" rfl rfl rfl
    exact hresult Soap.Message.bare.content hbrings
  · obtain ⟨-, hresult, -⟩ :=
      call_entity_alike (.ofReply (.failure none)) .v1_2 .bare "https://host/" rfl rfl rfl
    obtain ⟨-, error, -, -, hresult⟩ := hresult rfl
    exact ⟨error, hresult⟩

end Connection

end KerberosHttp
