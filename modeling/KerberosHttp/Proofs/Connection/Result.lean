import KerberosHttp.Proofs.Connection.Call

/-!
# What a call returns

The result of a call is settled by the first of these that applies:

```text
released      no transport is owned                   setup error
violation     a header of the message cannot be sent  protocol error
endpoint      the endpoint is no address              setup error with its text
unconnected   the transport does not connect          its error, unchanged
answered      the response is read to its end         what the octets are as a message
silent        the response fails, and the error has   the failure of the response
              no entity
explained     the response fails, and the entity of   what the octets are as a message
              the error is read to its end
broken        the response and the entity both fail   the failure of the entity
```

## Strategy

`Returns` says so with one constructor for each, and with the transport that the call
leaves behind, which shows that nothing more was asked of it: after a response that was
read to its end no entity of an error is asked for, whatever the octets are.  The five
places of `Exchanges` are exact (`Exchanges.exchange_eq`), so the constructors both
cover every call and exclude one another.
-/

namespace KerberosHttp.Connection

variable {σ : Type} [HttpTransport σ] [Url.Reader]

/-- What a call returns, and the transport it leaves behind. -/
inductive Returns (connection : Connection σ) (request : Soap.Message) (endpoint : String) :
    Except CallError Soap.Message → Option σ → Prop
  | released (hnone : connection.transport = none) :
      Returns connection request endpoint (.error (.soap (.setup .released))) none
  | violation {transport : σ} {violation : Violation}
      (howned : connection.transport = some transport)
      (hheaders : CallHeaders.ofMime request.mime = .error violation) :
      Returns connection request endpoint (.error (.protocol violation))
        (some (HttpTransport.disconnect transport))
  | endpoint {transport : σ} {headers : CallHeaders} {cause : Url.ParseError}
      (howned : connection.transport = some transport)
      (hheaders : CallHeaders.ofMime request.mime = .ok headers)
      (hparse : Url.parse endpoint = .error cause) :
      Returns connection request endpoint (.error (.soap (.setup (.endpoint endpoint cause))))
        (some (HttpTransport.disconnect transport))
  | unconnected {transport after : σ} {headers : CallHeaders} {url : Url}
      {error : TransportError} (howned : connection.transport = some transport)
      (hconnects : Connects request endpoint transport headers url (.error error) after) :
      Returns connection request endpoint (.error (.soap (.transport error)))
        (some (HttpTransport.disconnect after))
  | answered {transport connected after : σ} {headers : CallHeaders} {url : Url}
      {opened : Except IoError Stream} {content : Bytes}
      (howned : connection.transport = some transport)
      (hconnects : Connects request endpoint transport headers url (.ok ()) connected)
      (hopen : HttpTransport.openInput connected = (opened, after))
      (hread : Stream.entity opened = .ok content) :
      Returns connection request endpoint
        (answer (Soap.Message.ofBytes connection.responseVersion content))
        (some (HttpTransport.disconnect after))
  | silent {transport connected after last : σ} {headers : CallHeaders} {url : Url}
      {opened : Except IoError Stream} {error : IoError}
      (howned : connection.transport = some transport)
      (hconnects : Connects request endpoint transport headers url (.ok ()) connected)
      (hopen : HttpTransport.openInput connected = (opened, after))
      (hread : Stream.entity opened = .error error)
      (herror : HttpTransport.openError after = (none, last)) :
      Returns connection request endpoint (.error (.soap (.message (.io error))))
        (some (HttpTransport.disconnect last))
  | explained {transport connected after last : σ} {headers : CallHeaders} {url : Url}
      {opened : Except IoError Stream} {error : IoError} {entity : Stream} {content : Bytes}
      (howned : connection.transport = some transport)
      (hconnects : Connects request endpoint transport headers url (.ok ()) connected)
      (hopen : HttpTransport.openInput connected = (opened, after))
      (hread : Stream.entity opened = .error error)
      (herror : HttpTransport.openError after = (some entity, last))
      (hentity : entity.readToEnd = .ok content) :
      Returns connection request endpoint
        (answer (Soap.Message.ofBytes connection.responseVersion content))
        (some (HttpTransport.disconnect last))
  | broken {transport connected after last : σ} {headers : CallHeaders} {url : Url}
      {opened : Except IoError Stream} {error second : IoError} {entity : Stream}
      (howned : connection.transport = some transport)
      (hconnects : Connects request endpoint transport headers url (.ok ()) connected)
      (hopen : HttpTransport.openInput connected = (opened, after))
      (hread : Stream.entity opened = .error error)
      (herror : HttpTransport.openError after = (some entity, last))
      (hentity : entity.readToEnd = .error second) :
      Returns connection request endpoint (.error (.soap (.message (.io second))))
        (some (HttpTransport.disconnect last))

variable {connection : Connection σ} {request : Soap.Message} {endpoint : String}

theorem call_of_none (hnone : connection.transport = none) :
    connection.call request endpoint = (.error (.soap (.setup .released)), connection, []) := by
  simp only [call, hnone]

/-- A call is its exchange, and a disconnect after it. -/
theorem call_of_exchanges {transport : σ} {done : Outcome σ (Except CallError Soap.Message)}
    (howned : connection.transport = some transport)
    (hdone : Exchanges connection.responseVersion request endpoint transport done) :
    (connection.call request endpoint).1 = done.result ∧
      (connection.call request endpoint).2.1.transport =
        some (HttpTransport.disconnect done.transport) := by
  have hexchange := hdone.exchange_eq
  simp only [call, howned, hexchange, and_self]

omit [Url.Reader] in
theorem answer_io (error : IoError) :
    answer (.error (.io error)) = .error (.soap (.message (.io error))) := rfl

/-- An exchange with the disconnect after it returns what a call does. -/
theorem Exchanges.returns {transport : σ} {done : Outcome σ (Except CallError Soap.Message)}
    (howned : connection.transport = some transport)
    (hdone : Exchanges connection.responseVersion request endpoint transport done) :
    Returns connection request endpoint done.result
      (some (HttpTransport.disconnect done.transport)) := by
  cases hdone with
  | violation hheaders => exact .violation howned hheaders
  | endpoint hheaders hparse => exact .endpoint howned hheaders hparse
  | unconnected hconnects => exact .unconnected howned hconnects
  | answered hconnects hopen hread => exact .answered howned hconnects hopen hread
  | @fellBack _ _ _ _ _ _ error entity hconnects hopen hread herror =>
      cases entity with
      | none => exact .silent howned hconnects hopen hread herror
      | some stream =>
          cases hentity : stream.readToEnd with
          | ok content =>
              have hmessage : Soap.Message.ofStream connection.responseVersion stream =
                  Soap.Message.ofBytes connection.responseVersion content :=
                Soap.Message.ofStream_eq_ofBytes hentity
              simp only [fallback, hmessage]
              exact .explained howned hconnects hopen hread herror hentity
          | error second =>
              have hmessage : Soap.Message.ofStream connection.responseVersion stream =
                  .error (.io second) := Soap.Message.ofStream_eq_io_iff.mpr hentity
              simp only [fallback, hmessage, answer_io]
              exact .broken howned hconnects hopen hread herror hentity

/-- Every call returns in one of the eight ways. -/
theorem returns_call (connection : Connection σ) (request : Soap.Message) (endpoint : String) :
    Returns connection request endpoint (connection.call request endpoint).1
      (connection.call request endpoint).2.1.transport := by
  cases howned : connection.transport with
  | none =>
      rw [call_of_none howned, howned]
      exact .released howned
  | some transport =>
      have hdone := exchanges_exchange connection.responseVersion request endpoint transport
      obtain ⟨hresult, hlast⟩ := call_of_exchanges howned hdone
      rw [hresult, hlast]
      exact hdone.returns howned

/-- No call returns in two of them. -/
theorem Returns.call_eq {result : Except CallError Soap.Message} {last : Option σ}
    (hreturns : Returns connection request endpoint result last) :
    (connection.call request endpoint).1 = result ∧
      (connection.call request endpoint).2.1.transport = last := by
  cases hreturns with
  | released hnone =>
      rw [call_of_none hnone]
      exact ⟨rfl, hnone⟩
  | violation howned hheaders => exact call_of_exchanges howned (.violation hheaders)
  | endpoint howned hheaders hparse => exact call_of_exchanges howned (.endpoint hheaders hparse)
  | unconnected howned hconnects => exact call_of_exchanges howned (.unconnected hconnects)
  | answered howned hconnects hopen hread =>
      exact call_of_exchanges howned (.answered hconnects hopen hread)
  | silent howned hconnects hopen hread herror =>
      exact call_of_exchanges howned (.fellBack hconnects hopen hread herror)
  | explained howned hconnects hopen hread herror hentity =>
      obtain ⟨hresult, hlast⟩ :=
        call_of_exchanges howned (.fellBack hconnects hopen hread herror)
      refine ⟨?_, hlast⟩
      rw [hresult, fallback, Soap.Message.ofStream_eq_ofBytes hentity]
  | broken howned hconnects hopen hread herror hentity =>
      obtain ⟨hresult, hlast⟩ :=
        call_of_exchanges howned (.fellBack hconnects hopen hread herror)
      refine ⟨?_, hlast⟩
      rw [hresult, fallback, Soap.Message.ofStream_eq_io_iff.mpr hentity, answer_io]

omit [Url.Reader] in
theorem transportError?_of_answer {result : Except Soap.MessageError Soap.Message}
    {error : SoapError} (hanswer : answer result = .error (.soap error)) :
    error.transportError? = none := by
  cases result with
  | ok message => cases hanswer
  | error cause =>
      cases hanswer
      rfl

/-- Only a transport that does not connect gives a call an error of its own. -/
theorem Returns.connects {result : Except CallError Soap.Message} {last : Option σ}
    {error : SoapError} {cause : TransportError}
    (hreturns : Returns connection request endpoint result last)
    (hresult : result = .error (.soap error)) (htransport : error.transportError? = some cause) :
    ∃ transport headers url after, connection.transport = some transport ∧
      Connects request endpoint transport headers url (.error cause) after := by
  cases hreturns with
  | released => cases hresult; cases htransport
  | violation => cases hresult
  | endpoint => cases hresult; cases htransport
  | unconnected howned hconnects =>
      cases hresult
      cases htransport
      exact ⟨_, _, _, _, howned, hconnects⟩
  | answered =>
      rw [transportError?_of_answer hresult] at htransport
      cases htransport
  | silent => cases hresult; cases htransport
  | explained =>
      rw [transportError?_of_answer hresult] at htransport
      cases htransport
  | broken => cases hresult; cases htransport

end KerberosHttp.Connection
