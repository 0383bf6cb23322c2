import KerberosHttp.Connection.Basic
import KerberosHttp.Proofs.Connection.Headers
import KerberosHttp.Proofs.Soap.Message

/-!
# Where a call ends

A call ends in one of five places, and what it has done by then is the same for
every transport and every reader of addresses.  `Exchanges` says so once, with one
constructor for each place:

```text
violation     a header of the message cannot be sent     nothing is done
endpoint      the endpoint is no address                 nothing is done
unconnected   the transport does not connect             the headers are queued
answered      the response is read to its end
fellBack      the response fails, and the error's entity is asked for
```

`Simulates` compares two transports instead: from states that are alike they answer the
same and stay alike, so a call on them does (`Simulates.exchange`).  `Faithful` is the case
of a view of one as the other.  A call is the same through it (`Faithful.call`), which lets
a proof about an observed transport speak of the transport itself.
-/

namespace KerberosHttp

/-- What a stream that was asked for gives when it is read to its end. -/
def Stream.entity (opened : Except IoError Stream) : Except IoError Bytes :=
  opened.bind Stream.readToEnd

namespace Connection

variable {σ τ : Type} [HttpTransport σ] [HttpTransport τ]

/-! ## Before and after connecting -/

/-- The headers of a call cannot be sent, or its endpoint is no address. -/
def Refused [Url.Reader] (request : Soap.Message) (endpoint : String) : Prop :=
  (∃ violation, CallHeaders.ofMime request.mime = .error violation) ∨
    ∃ cause, Url.parse endpoint = .error cause

/-- A call gets as far as connecting. -/
structure Connects [Url.Reader] (request : Soap.Message) (endpoint : String) (transport : σ)
    (headers : CallHeaders) (url : Url) (result : Except TransportError Unit) (after : σ) :
    Prop where
  negotiate : CallHeaders.ofMime request.mime = .ok headers
  parse : Url.parse endpoint = .ok url
  connect : HttpTransport.connect (queue transport headers.toList) url request.content =
    (result, after)

section Connects

variable [Url.Reader] {request : Soap.Message} {endpoint : String}

theorem Connects.not_refused {transport after : σ} {headers : CallHeaders} {url : Url}
    {result : Except TransportError Unit}
    (hconnects : Connects request endpoint transport headers url result after) :
    ¬ Refused request endpoint := by
  rintro (⟨violation, hviolation⟩ | ⟨cause, hcause⟩)
  · cases hconnects.negotiate.symm.trans hviolation
  · cases hconnects.parse.symm.trans hcause

/-- A call connects in one way only. -/
theorem Connects.unique {transport after after' : σ} {headers headers' : CallHeaders}
    {url url' : Url} {result result' : Except TransportError Unit}
    (hconnects : Connects request endpoint transport headers url result after)
    (hconnects' : Connects request endpoint transport headers' url' result' after') :
    result' = result ∧ after' = after := by
  obtain rfl : headers' = headers :=
    Except.ok.inj (hconnects'.negotiate.symm.trans hconnects.negotiate)
  obtain rfl : url' = url := Except.ok.inj (hconnects'.parse.symm.trans hconnects.parse)
  exact Prod.mk.inj (hconnects'.connect.symm.trans hconnects.connect)

end Connects

/-! ## The places -/

/-- The event that a request is about to be sent. -/
def sending (request : Soap.Message) (headers : CallHeaders) (url : Url) : LogEvent :=
  .sendingRequest url headers.contentType headers.soapAction request.content.length

/-- The answer from the entity of an error, after the response could not be read. -/
def fallback (version : Soap.Version) (error : IoError) :
    Option Stream → Except Soap.MessageError Soap.Message
  | some stream => Soap.Message.ofStream version stream
  | none => .error (.io error)

/-- An answer as the result of a call. -/
def answer (result : Except Soap.MessageError Soap.Message) : Except CallError Soap.Message :=
  (result.mapError SoapError.message).mapError CallError.soap

/-- What a call does until it disconnects, by the place where it ends. -/
inductive Exchanges [Url.Reader] (version : Soap.Version) (request : Soap.Message)
    (endpoint : String) (transport : σ) : Outcome σ (Except CallError Soap.Message) → Prop
  | violation {violation : Violation}
      (hheaders : CallHeaders.ofMime request.mime = .error violation) :
      Exchanges version request endpoint transport ⟨.error (.protocol violation), transport, []⟩
  | endpoint {headers : CallHeaders} {cause : Url.ParseError}
      (hheaders : CallHeaders.ofMime request.mime = .ok headers)
      (hparse : Url.parse endpoint = .error cause) :
      Exchanges version request endpoint transport
        ⟨.error (.soap (.setup (.endpoint endpoint cause))), transport, []⟩
  | unconnected {headers : CallHeaders} {url : Url} {error : TransportError} {after : σ}
      (hconnects : Connects request endpoint transport headers url (.error error) after) :
      Exchanges version request endpoint transport
        ⟨.error (.soap (.transport error)), after,
          [sending request headers url, .connectFailed url error]⟩
  | answered {headers : CallHeaders} {url : Url} {connected after : σ}
      {opened : Except IoError Stream} {content : Bytes}
      (hconnects : Connects request endpoint transport headers url (.ok ()) connected)
      (hopen : HttpTransport.openInput connected = (opened, after))
      (hread : Stream.entity opened = .ok content) :
      Exchanges version request endpoint transport
        ⟨answer (Soap.Message.ofBytes version content), after, [sending request headers url]⟩
  | fellBack {headers : CallHeaders} {url : Url} {connected after last : σ}
      {opened : Except IoError Stream} {error : IoError} {entity : Option Stream}
      (hconnects : Connects request endpoint transport headers url (.ok ()) connected)
      (hopen : HttpTransport.openInput connected = (opened, after))
      (hread : Stream.entity opened = .error error)
      (herror : HttpTransport.openError after = (entity, last)) :
      Exchanges version request endpoint transport
        ⟨answer (fallback version error entity), last,
          [sending request headers url, .inputFailed error]⟩

theorem receive_of_ok {version : Soap.Version} {connected after : σ}
    {opened : Except IoError Stream} {content : Bytes}
    (hopen : HttpTransport.openInput connected = (opened, after))
    (hread : Stream.entity opened = .ok content) :
    receive version connected = ⟨Soap.Message.ofBytes version content, after, []⟩ := by
  cases opened with
  | error cause => cases hread
  | ok stream =>
      have hstream : Soap.Message.ofStream version stream = Soap.Message.ofBytes version content :=
        Soap.Message.ofStream_eq_ofBytes hread
      simp only [receive, hopen, hstream]
      split
      · next cause hresult => exact absurd hresult (Soap.Message.ofBytes_ne_io content cause)
      · rfl

theorem receive_of_error {version : Soap.Version} {connected after last : σ}
    {opened : Except IoError Stream} {error : IoError} {entity : Option Stream}
    (hopen : HttpTransport.openInput connected = (opened, after))
    (hread : Stream.entity opened = .error error)
    (herror : HttpTransport.openError after = (entity, last)) :
    receive version connected = ⟨fallback version error entity, last, [.inputFailed error]⟩ := by
  cases opened with
  | error cause =>
      cases hread
      simp only [receive, hopen, herror]
      cases entity <;> rfl
  | ok stream =>
      have hstream : Soap.Message.ofStream version stream = .error (.io error) :=
        Soap.Message.ofStream_eq_io_iff.mpr hread
      simp only [receive, hopen, hstream, herror]
      cases entity <;> rfl

variable [Url.Reader]

/-- A call ends in one of the five places. -/
theorem exchanges_exchange (version : Soap.Version) (request : Soap.Message) (endpoint : String)
    (transport : σ) :
    Exchanges version request endpoint transport
      (exchange version request endpoint transport) := by
  unfold exchange
  cases hheaders : CallHeaders.ofMime request.mime with
  | error violation => exact .violation hheaders
  | ok headers =>
      cases hparse : Url.parse endpoint with
      | error cause => exact .endpoint hheaders hparse
      | ok url =>
          rcases hconnect : HttpTransport.connect (queue transport headers.toList) url
            request.content with ⟨result, after⟩
          cases result with
          | error error =>
              simp only [send, hconnect]
              exact .unconnected ⟨hheaders, hparse, hconnect⟩
          | ok _ =>
              simp only [send, hconnect]
              rcases hopen : HttpTransport.openInput after with ⟨opened, after'⟩
              cases hread : Stream.entity opened with
              | ok content =>
                  rw [receive_of_ok hopen hread]
                  exact .answered ⟨hheaders, hparse, hconnect⟩ hopen hread
              | error error =>
                  rcases herror : HttpTransport.openError after' with ⟨entity, last⟩
                  rw [receive_of_error hopen hread herror]
                  exact .fellBack ⟨hheaders, hparse, hconnect⟩ hopen hread herror

/-- The place decides all that a call does until it disconnects. -/
theorem Exchanges.exchange_eq {version : Soap.Version} {request : Soap.Message}
    {endpoint : String} {transport : σ} {done : Outcome σ (Except CallError Soap.Message)}
    (hdone : Exchanges version request endpoint transport done) :
    exchange version request endpoint transport = done := by
  cases hdone with
  | violation hheaders => simp only [exchange, hheaders]
  | endpoint hheaders hparse => simp only [exchange, hheaders, hparse]
  | unconnected hconnects =>
      obtain ⟨hheaders, hparse, hconnect⟩ := hconnects
      simp only [exchange, hheaders, hparse, send, hconnect]
      rfl
  | answered hconnects hopen hread =>
      obtain ⟨hheaders, hparse, hconnect⟩ := hconnects
      simp only [exchange, hheaders, hparse, send, hconnect, receive_of_ok hopen hread]
      rfl
  | fellBack hconnects hopen hread herror =>
      obtain ⟨hheaders, hparse, hconnect⟩ := hconnects
      simp only [exchange, hheaders, hparse, send, hconnect, receive_of_error hopen hread herror]
      rfl

end Connection

/-! ## Two transports that answer the same -/

section Simulates

variable {σ τ α β : Type}

/-- Two outcomes that differ only in transports that are alike, and in what is not seen of
an event. -/
structure Agrees (alike : σ → τ → Prop) (seen : LogEvent → β) (done : Outcome σ α)
    (other : Outcome τ α) : Prop where
  result : done.result = other.result
  transport : alike done.transport other.transport
  log : done.log.map seen = other.log.map seen

/-- What is seen of an event is the same for addresses that are near. -/
structure Hides (near : Url → Url → Prop) (seen : LogEvent → β) : Prop where
  sending {url url' : Url} (hnear : near url url') (request : Soap.Message)
    (headers : CallHeaders) :
    seen (Connection.sending request headers url) = seen (Connection.sending request headers url')
  connectFailed {url url' : Url} (hnear : near url url') (error : TransportError) :
    seen (.connectFailed url error) = seen (.connectFailed url' error)

variable [HttpTransport σ] [HttpTransport τ]

/-- Until they are disconnected, two transports that are alike stay so and answer the same,
even if the addresses they connect to are only near to each other. -/
structure Simulates (alike : σ → τ → Prop) (near : Url → Url → Prop) : Prop where
  addHeader {transport : σ} {other : τ} (halike : alike transport other) (header : Header) :
    alike (HttpTransport.addHeader transport header) (HttpTransport.addHeader other header)
  connect {transport : σ} {other : τ} (halike : alike transport other) {url url' : Url}
    (hnear : near url url') (body : Bytes) :
    (HttpTransport.connect transport url body).1 = (HttpTransport.connect other url' body).1 ∧
      alike (HttpTransport.connect transport url body).2 (HttpTransport.connect other url' body).2
  openInput {transport : σ} {other : τ} (halike : alike transport other) :
    (HttpTransport.openInput transport).1 = (HttpTransport.openInput other).1 ∧
      alike (HttpTransport.openInput transport).2 (HttpTransport.openInput other).2
  openError {transport : σ} {other : τ} (halike : alike transport other) :
    (HttpTransport.openError transport).1 = (HttpTransport.openError other).1 ∧
      alike (HttpTransport.openError transport).2 (HttpTransport.openError other).2

namespace Simulates

variable {alike : σ → τ → Prop} {near : Url → Url → Prop} {seen : LogEvent → β}
  {transport : σ} {other : τ}

theorem queue (hsimulates : Simulates alike near) (halike : alike transport other)
    (headers : List Header) :
    alike (Connection.queue transport headers) (Connection.queue other headers) := by
  induction headers generalizing transport other with
  | nil => exact halike
  | cons header rest ih => exact ih (hsimulates.addHeader halike header)

theorem receive (hsimulates : Simulates alike near) (halike : alike transport other)
    (seen : LogEvent → β) (version : Soap.Version) :
    Agrees alike seen (Connection.receive version transport)
      (Connection.receive version other) := by
  obtain ⟨hopened, hafter⟩ := hsimulates.openInput halike
  rcases hopen : HttpTransport.openInput transport with ⟨opened, after⟩
  rcases hopen' : HttpTransport.openInput other with ⟨opened', after'⟩
  rw [hopen, hopen'] at hopened hafter
  obtain rfl : opened = opened' := hopened
  cases hread : Stream.entity opened with
  | ok content =>
      rw [Connection.receive_of_ok hopen hread, Connection.receive_of_ok hopen' hread]
      exact ⟨rfl, hafter, rfl⟩
  | error error =>
      obtain ⟨hentity, hlast⟩ := hsimulates.openError hafter
      rcases herror : HttpTransport.openError after with ⟨entity, last⟩
      rcases herror' : HttpTransport.openError after' with ⟨entity', last'⟩
      rw [herror, herror'] at hentity hlast
      obtain rfl : entity = entity' := hentity
      rw [Connection.receive_of_error hopen hread herror,
        Connection.receive_of_error hopen' hread herror']
      exact ⟨rfl, hlast, rfl⟩

theorem send (hsimulates : Simulates alike near) (halike : alike transport other)
    (hhides : Hides near seen) {url url' : Url} (hnear : near url url')
    (version : Soap.Version) (headers : CallHeaders) (request : Soap.Message) :
    Agrees alike seen (Connection.send version headers url request.content transport)
      (Connection.send version headers url' request.content other) := by
  have hsending := hhides.sending hnear request headers
  unfold Connection.sending at hsending
  obtain ⟨hresult, hafter⟩ :=
    hsimulates.connect (hsimulates.queue halike headers.toList) hnear request.content
  rcases hconnect : HttpTransport.connect (Connection.queue transport headers.toList) url
    request.content with ⟨result, after⟩
  rcases hconnect' : HttpTransport.connect (Connection.queue other headers.toList) url'
    request.content with ⟨result', after'⟩
  rw [hconnect, hconnect'] at hresult hafter
  obtain rfl : result = result' := hresult
  simp only [Connection.send, hconnect, hconnect']
  cases result with
  | error error =>
      have hfailed := hhides.connectFailed hnear error
      exact ⟨rfl, hafter, by simp only [List.map_cons, List.map_nil, hsending, hfailed]⟩
  | ok _ =>
      obtain ⟨hanswer, hlast, hlog⟩ := hsimulates.receive hafter seen version
      exact
        { result := congrArg (Except.mapError SoapError.message) hanswer
          transport := hlast
          log := by simp only [List.map_cons, hsending, hlog] }

/-- On transports that are alike, and to addresses that are near, a call does the same
until it disconnects. -/
theorem exchange [Url.Reader] (hsimulates : Simulates alike near)
    (halike : alike transport other) (hhides : Hides near seen) {first second : String}
    {url url' : Url} (hfirst : Url.parse first = .ok url) (hsecond : Url.parse second = .ok url')
    (hnear : near url url') (version : Soap.Version) (request : Soap.Message) :
    Agrees alike seen (Connection.exchange version request first transport)
      (Connection.exchange version request second other) := by
  cases hheaders : CallHeaders.ofMime request.mime with
  | error violation =>
      simp only [Connection.exchange, hheaders]
      exact ⟨rfl, halike, rfl⟩
  | ok headers =>
      simp only [Connection.exchange, hheaders, hfirst, hsecond]
      obtain ⟨hresult, hafter, hlog⟩ := hsimulates.send halike hhides hnear version headers request
      exact ⟨congrArg (Except.mapError CallError.soap) hresult, hafter, hlog⟩

end Simulates

end Simulates

/-! ## Two transports that do the same -/

section Faithful

variable {σ τ α : Type}

/-- An outcome with its transport seen through a view. -/
def Outcome.through (view : σ → τ) (done : Outcome σ α) : Outcome τ α :=
  ⟨done.result, view done.transport, done.log⟩

/-- A connection with its transport seen through a view. -/
def Connection.through (view : σ → τ) (connection : Connection σ) : Connection τ :=
  ⟨connection.transport.map view, connection.responseVersion⟩

/-- If all of the log is seen, outcomes that agree through a view are one. -/
theorem Agrees.eq_through {view : σ → τ} {done : Outcome σ α} {other : Outcome τ α}
    (hagrees : Agrees (fun transport other => other = view transport) id done other) :
    other = done.through view := by
  obtain ⟨result, transport, log⟩ := done
  obtain ⟨result', transport', log'⟩ := other
  obtain ⟨rfl, rfl, hlog⟩ := hagrees
  rw [List.map_id, List.map_id] at hlog
  exact congrArg (Outcome.mk result (view transport)) hlog.symm

variable [HttpTransport σ] [HttpTransport τ]

/-- A view of one transport as another through which every operation does the same. -/
structure Faithful (view : σ → τ) : Prop where
  addHeader (transport : σ) (header : Header) :
    HttpTransport.addHeader (view transport) header =
      view (HttpTransport.addHeader transport header)
  connect (transport : σ) (url : Url) (body : Bytes) :
    HttpTransport.connect (view transport) url body =
      Prod.map id view (HttpTransport.connect transport url body)
  openInput (transport : σ) :
    HttpTransport.openInput (view transport) = Prod.map id view (HttpTransport.openInput transport)
  openError (transport : σ) :
    HttpTransport.openError (view transport) = Prod.map id view (HttpTransport.openError transport)
  disconnect (transport : σ) :
    HttpTransport.disconnect (view transport) = view (HttpTransport.disconnect transport)

namespace Faithful

variable {view : σ → τ}

/-- What is seen through a faithful view is alike. -/
theorem simulates (hview : Faithful view) :
    Simulates (fun transport other => other = view transport) Eq where
  addHeader := by
    rintro transport _ rfl header
    exact hview.addHeader transport header
  connect := by
    rintro transport _ rfl url _ rfl body
    rw [hview.connect]
    exact ⟨rfl, rfl⟩
  openInput := by
    rintro transport _ rfl
    rw [hview.openInput]
    exact ⟨rfl, rfl⟩
  openError := by
    rintro transport _ rfl
    rw [hview.openError]
    exact ⟨rfl, rfl⟩

theorem exchange [Url.Reader] (hview : Faithful view) (version : Soap.Version)
    (request : Soap.Message) (endpoint : String) (transport : σ) :
    Connection.exchange version request endpoint (view transport) =
      (Connection.exchange version request endpoint transport).through view := by
  have hhides : Hides Eq (id : LogEvent → LogEvent) :=
    ⟨fun hsame _ _ => by rw [hsame], fun hsame _ => by rw [hsame]⟩
  cases hparse : Url.parse endpoint with
  | ok url =>
      refine Agrees.eq_through ?_
      exact hview.simulates.exchange rfl hhides hparse hparse rfl version request
  | error cause =>
      unfold Connection.exchange
      rw [hparse]
      cases CallHeaders.ofMime request.mime with
      | error violation => rfl
      | ok headers => rfl

/-- Through a faithful view a call does the same. -/
theorem call [Url.Reader] (hview : Faithful view) (connection : Connection σ)
    (request : Soap.Message) (endpoint : String) :
    (connection.through view).call request endpoint =
      ((connection.call request endpoint).1, (connection.call request endpoint).2.1.through view,
        (connection.call request endpoint).2.2) := by
  obtain ⟨transport, version⟩ := connection
  cases transport with
  | none => rfl
  | some transport =>
      simp only [Connection.through, Connection.call, Option.map_some, hview.exchange,
        Outcome.through, hview.disconnect]

end Faithful

/-- The record of a traced transport changes nothing that the transport does. -/
theorem Traced.faithful_inner : Faithful (Traced.inner : Traced σ → σ) where
  addHeader _ _ := rfl
  connect _ _ _ := rfl
  openInput _ := rfl
  openError _ := rfl
  disconnect _ := rfl

end Faithful

end KerberosHttp
