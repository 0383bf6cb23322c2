import KerberosHttp.Proofs.Connection.Call
import KerberosHttp.Transport.Recording
import KerberosHttp.Url.Ascii

/-!
# What a call does with its transport

Whatever a transport does, and whatever an address is read as, a call uses the
transport in one of four ways:

```text
refused       disconnect
unconnected   add headers, connect, disconnect
answered      add headers, connect, open the response, disconnect
fellBack      add headers, connect, open the response, open the error's entity, disconnect
```

## Strategy

`CallShape` lists the four ways with what decides between them.  A traced transport
keeps a record of the operations on it and does nothing else
(`Traced.faithful_inner`), so the way of a call is what the record gains; the five
places of `Connection.Exchanges` give it.  All that a call promises of its
operations, `KeepsProtocol`, follows from the four ways alone.
-/

namespace KerberosHttp

variable {σ : Type} [HttpTransport σ]

namespace Traced

/-! ## What the record gains -/

theorem connect_eq (transport : Traced σ) (url : Url) (body : Bytes) :
    HttpTransport.connect transport url body =
      ((HttpTransport.connect transport.inner url body).1,
        ⟨(HttpTransport.connect transport.inner url body).2,
          transport.operations ++ [.connect url body]⟩) := rfl

theorem openInput_eq (transport : Traced σ) :
    HttpTransport.openInput transport =
      ((HttpTransport.openInput transport.inner).1,
        ⟨(HttpTransport.openInput transport.inner).2, transport.operations ++ [.openInput]⟩) := rfl

theorem openError_eq (transport : Traced σ) :
    HttpTransport.openError transport =
      ((HttpTransport.openError transport.inner).1,
        ⟨(HttpTransport.openError transport.inner).2, transport.operations ++ [.openError]⟩) := rfl

theorem disconnect_eq (transport : Traced σ) :
    HttpTransport.disconnect transport =
      ⟨HttpTransport.disconnect transport.inner, transport.operations ++ [.disconnect]⟩ := rfl

theorem queue_eq (transport : Traced σ) (headers : List Header) :
    Connection.queue transport headers =
      ⟨Connection.queue transport.inner headers,
        transport.operations ++ headers.map Operation.addHeader⟩ := by
  induction headers generalizing transport with
  | nil => simp [Connection.queue]
  | cons header rest ih =>
      have hfirst : Connection.queue transport (header :: rest) =
          Connection.queue (HttpTransport.addHeader transport header) rest := rfl
      rw [hfirst, ih, List.map_cons, List.append_cons]
      rfl

end Traced

namespace Connection

/-! ## The four ways -/

/-- The operations that queue the headers of a call. -/
def additions (headers : CallHeaders) : List Operation :=
  .addHeader ⟨.contentType, headers.contentType⟩ ::
    (headers.soapAction.map fun action => .addHeader ⟨.soapAction, action⟩).toList

/-- The operations of a call, in order, by the place where it ends. -/
inductive CallShape [Url.Reader] (request : Soap.Message) (endpoint : String) (transport : σ) :
    List Operation → Prop
  | refused (hrefused : Refused request endpoint) :
      CallShape request endpoint transport [.disconnect]
  | unconnected {headers : CallHeaders} {url : Url} {error : TransportError} {after : σ}
      (hconnects : Connects request endpoint transport headers url (.error error) after) :
      CallShape request endpoint transport
        (additions headers ++ [.connect url request.content, .disconnect])
  | answered {headers : CallHeaders} {url : Url} {connected : σ} {content : Bytes}
      (hconnects : Connects request endpoint transport headers url (.ok ()) connected)
      (hread : Stream.entity (HttpTransport.openInput connected).1 = .ok content) :
      CallShape request endpoint transport
        (additions headers ++ [.connect url request.content, .openInput, .disconnect])
  | fellBack {headers : CallHeaders} {url : Url} {connected : σ} {error : IoError}
      (hconnects : Connects request endpoint transport headers url (.ok ()) connected)
      (hread : Stream.entity (HttpTransport.openInput connected).1 = .error error) :
      CallShape request endpoint transport
        (additions headers ++ [.connect url request.content, .openInput, .openError, .disconnect])

/-- What a call promises of the operations on its transport. -/
structure KeepsProtocol [Url.Reader] (request : Soap.Message) (endpoint : String) (transport : σ)
    (operations : List Operation) : Prop where
  /-- They are one of the four lists. -/
  shape : CallShape request endpoint transport operations
  /-- The action is added exactly if the message has one. -/
  action : ∀ headers, CallHeaders.ofMime request.mime = .ok headers →
    (headers.soapAction.isSome ↔ request.mime.values "SOAPAction" ≠ [])
  /-- Nothing but the disconnect happens exactly if the call is refused. -/
  refused_iff : operations = [.disconnect] ↔ Refused request endpoint
  /-- The entity of the error is asked for exactly if the response could not be opened, or
  reading it broke off. -/
  openError_iff : .openError ∈ operations ↔ ∃ headers url connected error,
    Connects request endpoint transport headers url (.ok ()) connected ∧
      Stream.entity (HttpTransport.openInput connected).1 = .error error
  openError_once : operations.count .openError ≤ 1
  disconnect_once : operations.count .disconnect = 1
  disconnect_last : operations.getLast? = some .disconnect
  /-- What is connected to is the endpoint, and what is sent is the message. -/
  connect_exact : ∀ url body, .connect url body ∈ operations →
    Url.parse endpoint = .ok url ∧ body = request.content

theorem additions_eq (headers : CallHeaders) :
    headers.toList.map Operation.addHeader = additions headers := by
  rw [CallHeaders.toList, additions]
  cases headers.soapAction <;> rfl

/-- Queueing headers is all that the additions do. -/
theorem mem_additions {headers : CallHeaders} {operation : Operation}
    (hmem : operation ∈ additions headers) : ∃ header, operation = .addHeader header := by
  rw [← additions_eq, List.mem_map] at hmem
  obtain ⟨header, -, rfl⟩ := hmem
  exact ⟨header, rfl⟩

theorem count_additions (headers : CallHeaders) {operation : Operation}
    (hother : ∀ header, operation ≠ .addHeader header) :
    (additions headers).count operation = 0 := by
  rw [List.count_eq_zero]
  intro hmem
  obtain ⟨header, hadd⟩ := mem_additions hmem
  exact hother header hadd

section AnyReader

variable [Url.Reader] {request : Soap.Message} {endpoint : String}

namespace CallShape

variable {transport : σ} {operations : List Operation}

theorem refused_iff (hshape : CallShape request endpoint transport operations) :
    operations = [.disconnect] ↔ Refused request endpoint := by
  cases hshape with
  | refused hrefused => simp [hrefused]
  | unconnected hconnects => simp [additions, hconnects.not_refused]
  | answered hconnects => simp [additions, hconnects.not_refused]
  | fellBack hconnects => simp [additions, hconnects.not_refused]

theorem openError_iff (hshape : CallShape request endpoint transport operations) :
    .openError ∈ operations ↔ ∃ headers url connected error,
      Connects request endpoint transport headers url (.ok ()) connected ∧
        Stream.entity (HttpTransport.openInput connected).1 = .error error := by
  have hnone : ∀ headers, Operation.openError ∉ additions headers := by
    intro headers hmem
    obtain ⟨header, hadd⟩ := mem_additions hmem
    cases hadd
  cases hshape with
  | refused hrefused =>
      refine iff_of_false (by simp) ?_
      rintro ⟨headers, url, connected, error, hconnects, -⟩
      exact hconnects.not_refused hrefused
  | unconnected hfails =>
      refine iff_of_false (by simp [hnone]) ?_
      rintro ⟨headers, url, connected, error, hconnects, -⟩
      cases (hfails.unique hconnects).1
  | answered hconnects hread =>
      refine iff_of_false (by simp [hnone]) ?_
      rintro ⟨headers, url, connected, error, hconnects', hread'⟩
      rw [(hconnects.unique hconnects').2, hread] at hread'
      cases hread'
  | fellBack hconnects hread => exact iff_of_true (by simp) ⟨_, _, _, _, hconnects, hread⟩

theorem openError_once (hshape : CallShape request endpoint transport operations) :
    operations.count .openError ≤ 1 := by
  have hnone : ∀ headers, (additions headers).count Operation.openError = 0 :=
    fun headers => count_additions headers nofun
  cases hshape <;> simp [hnone]

theorem disconnect_once (hshape : CallShape request endpoint transport operations) :
    operations.count .disconnect = 1 := by
  have hnone : ∀ headers, (additions headers).count Operation.disconnect = 0 :=
    fun headers => count_additions headers nofun
  cases hshape <;> simp [hnone]

theorem disconnect_last (hshape : CallShape request endpoint transport operations) :
    operations.getLast? = some .disconnect := by
  cases hshape <;> simp [List.getLast?_append]

theorem connect_exact (hshape : CallShape request endpoint transport operations) (url : Url)
    (body : Bytes) (hmem : .connect url body ∈ operations) :
    Url.parse endpoint = .ok url ∧ body = request.content := by
  have hnone : ∀ headers, Operation.connect url body ∉ additions headers := by
    intro headers hmem
    obtain ⟨header, hadd⟩ := mem_additions hmem
    cases hadd
  cases hshape with
  | refused => simp at hmem
  | unconnected hconnects =>
      obtain ⟨rfl, rfl⟩ : url = _ ∧ body = _ := by simpa [hnone] using hmem
      exact ⟨hconnects.parse, rfl⟩
  | answered hconnects =>
      obtain ⟨rfl, rfl⟩ : url = _ ∧ body = _ := by simpa [hnone] using hmem
      exact ⟨hconnects.parse, rfl⟩
  | fellBack hconnects =>
      obtain ⟨rfl, rfl⟩ : url = _ ∧ body = _ := by simpa [hnone] using hmem
      exact ⟨hconnects.parse, rfl⟩

/-- The four ways are all that a call has to promise. -/
theorem keepsProtocol (hshape : CallShape request endpoint transport operations) :
    KeepsProtocol request endpoint transport operations where
  shape := hshape
  action headers hheaders := by
    rcases CallHeaders.soapAction_eq_of_ofMime hheaders with
      ⟨hvalues, hnone⟩ | ⟨text, action, hvalues, -, hsome⟩
    · simp [hvalues, hnone]
    · simp [hvalues, hsome]
  refused_iff := hshape.refused_iff
  openError_iff := hshape.openError_iff
  openError_once := hshape.openError_once
  disconnect_once := hshape.disconnect_once
  disconnect_last := hshape.disconnect_last
  connect_exact := hshape.connect_exact

end CallShape

/-! ## A call on a traced transport -/

theorem Connects.traced {transport after : Traced σ} {headers : CallHeaders} {url : Url}
    {result : Except TransportError Unit}
    (hconnects : Connects request endpoint transport headers url result after) :
    Connects request endpoint transport.inner headers url result after.inner ∧
      after.operations =
        transport.operations ++ additions headers ++ [.connect url request.content] := by
  obtain ⟨hnegotiate, hparse, hconnect⟩ := hconnects
  rw [Traced.queue_eq, Traced.connect_eq, additions_eq, Prod.mk.injEq] at hconnect
  obtain ⟨rfl, rfl⟩ := hconnect
  exact ⟨⟨hnegotiate, hparse, rfl⟩, rfl⟩

/-- What the record of a transport gains until it is disconnected, and by that. -/
theorem Exchanges.shape {version : Soap.Version} {transport : Traced σ}
    {done : Outcome (Traced σ) (Except CallError Soap.Message)}
    (hdone : Exchanges version request endpoint transport done) :
    ∃ operations, CallShape request endpoint transport.inner operations ∧
      done.transport.operations ++ [.disconnect] = transport.operations ++ operations := by
  cases hdone with
  | violation hheaders => exact ⟨_, .refused (.inl ⟨_, hheaders⟩), rfl⟩
  | endpoint hheaders hparse => exact ⟨_, .refused (.inr ⟨_, hparse⟩), rfl⟩
  | unconnected hconnects =>
      obtain ⟨hinner, hoperations⟩ := hconnects.traced
      exact ⟨_, .unconnected hinner, by simp [hoperations]⟩
  | answered hconnects hopen hread =>
      obtain ⟨hinner, hoperations⟩ := hconnects.traced
      rw [Traced.openInput_eq, Prod.mk.injEq] at hopen
      obtain ⟨rfl, rfl⟩ := hopen
      exact ⟨_, .answered hinner hread, by simp [hoperations]⟩
  | fellBack hconnects hopen hread herror =>
      obtain ⟨hinner, hoperations⟩ := hconnects.traced
      rw [Traced.openInput_eq, Prod.mk.injEq] at hopen
      obtain ⟨rfl, rfl⟩ := hopen
      rw [Traced.openError_eq, Prod.mk.injEq] at herror
      obtain ⟨rfl, rfl⟩ := herror
      exact ⟨_, .fellBack hinner hread, by simp [hoperations]⟩

/-- **The protocol of a call.**  Whatever the transport of a connection does, and whatever
reads the addresses, a call gains its record the operations of one of the four ways, and
the call itself is the one on the transport without a record. -/
theorem call_keepsProtocol (connection : Connection (Traced σ)) (request : Soap.Message)
    (endpoint : String) {transport : Traced σ} (howned : connection.transport = some transport) :
    ∃ after operations,
      (connection.call request endpoint).2.1.transport =
        some ⟨after, transport.operations ++ operations⟩ ∧
      (connection.through Traced.inner).call request endpoint =
        ((connection.call request endpoint).1, ⟨some after, connection.responseVersion⟩,
          (connection.call request endpoint).2.2) ∧
      KeepsProtocol request endpoint transport.inner operations := by
  -- The call ends in one of the five places, and each gives the record its shape.
  obtain ⟨operations, hshape, hoperations⟩ :=
    (exchanges_exchange connection.responseVersion request endpoint transport).shape
  have hafter : (connection.call request endpoint).2.1.transport = some
      (HttpTransport.disconnect
        (exchange connection.responseVersion request endpoint transport).transport) := by
    simp only [call, howned]
  have hversion : (connection.call request endpoint).2.1.responseVersion =
      connection.responseVersion := by
    simp only [call, howned]
  rw [Traced.disconnect_eq, hoperations] at hafter
  refine ⟨_, operations, hafter, ?_, hshape.keepsProtocol⟩
  rw [Traced.faithful_inner.call, through, hafter, hversion]
  rfl

end AnyReader

/-- The response breaks off, and the entity of the error is asked for. -/
theorem call_keepsProtocol_broken :
    ∃ after operations,
      ((ofTransport (Traced.ofInner (RecordingTransport.ofReply (.broken [])))).call .bare
        "https://host/").2.1.transport = some ⟨after, operations⟩ ∧
      KeepsProtocol .bare "https://host/" (RecordingTransport.ofReply (.broken [])) operations ∧
      .openError ∈ operations := by
  obtain ⟨after, operations, hafter, -, hkeeps⟩ := call_keepsProtocol
    (ofTransport (Traced.ofInner (RecordingTransport.ofReply (.broken [])))) .bare "https://host/"
    rfl
  refine ⟨after, operations, hafter, hkeeps, ?_⟩
  exact hkeeps.openError_iff.mpr ⟨_, _, _, _, ⟨rfl, rfl, rfl⟩, rfl⟩

end Connection

end KerberosHttp
