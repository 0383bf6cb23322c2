import KerberosHttp.ClientAuth.Basic
import KerberosHttp.Connection.Headers
import KerberosHttp.Soap.Message
import KerberosHttp.Transport.Basic
import KerberosHttp.Url.Basic

/-!
# SOAP connections

A connection owns a transport until it releases it.  A call sends a message over
the transport and reads the answer; whatever comes of it, the transport is
disconnected at the end.

The answer is read from the response.  If that cannot be opened or breaks off, it
is read once from the entity of the error instead, and if there is none, the first
failure stands.  An answer that was read to its end and is no message is an error
as it is.
-/

namespace KerberosHttp

/-- Why a call could not even begin. -/
inductive SetupError
  | released
  /-- The endpoint is no address. -/
  | endpoint (text : String) (cause : Url.ParseError)
  deriving DecidableEq, Repr

def SetupError.message : SetupError → String
  | .released => "the connection no longer owns a transport"
  | .endpoint text cause => "invalid endpoint '" ++ text ++ "': " ++ cause.message

def SetupError.sources : SetupError → List String
  | .released => []
  | .endpoint _ cause => [cause.message]

/-- What ended a call. -/
inductive SoapError
  | setup (cause : SetupError)
  | transport (cause : TransportError)
  | message (cause : Soap.MessageError)
  deriving DecidableEq, Repr

namespace SoapError

def causeMessage : SoapError → String
  | setup cause => cause.message
  | transport cause => cause.message
  | message cause => cause.message

def sources : SoapError → List String
  | setup cause => cause.message :: cause.sources
  | transport cause => cause.message :: cause.sources
  | message cause => cause.message :: cause.sources

/-- The failure of the transport, if that is what ended the call. -/
def transportError? : SoapError → Option TransportError
  | transport cause => some cause
  | _ => none

/-- What is wrong with the answer, if that is what ended the call. -/
def messageError? : SoapError → Option Soap.MessageError
  | message cause => some cause
  | _ => none

end SoapError

/-- Why a call has no answer. -/
inductive CallError
  /-- A header of the message cannot be sent. -/
  | protocol (violation : Violation)
  | soap (error : SoapError)
  deriving DecidableEq, Repr

def CallError.message : CallError → String
  | .protocol violation => violation.message
  | .soap error => "SOAP call failed: " ++ error.causeMessage

def CallError.sources : CallError → List String
  | .protocol _ => []
  | .soap error => error.sources

/-- What came of something done with a transport: a result, the transport afterwards,
and what was reported. -/
structure Outcome (σ α : Type) where
  result : α
  transport : σ
  log : Log

structure Connection (σ : Type) where
  /-- The transport, unless it was released -/
  transport : Option σ
  /-- The version of which answers are read -/
  responseVersion : Soap.Version

namespace Connection

variable {σ : Type}

def ofTransport (transport : σ) : Connection σ := ⟨some transport, default⟩

/-- Opens a transport for an authentication.  Opening it may report something itself. -/
def openWith (factory : ClientAuth → Except TransportError σ × Log) (auth : ClientAuth) :
    Except TransportError (Connection σ) × Log :=
  match factory auth with
  | (.ok transport, log) =>
    (.ok (ofTransport transport), log ++ [.transportOpened auth.loginModuleName])
  | (.error error, log) => (.error error, log ++ [.loginFailed auth.loginModuleName error])

/-- The connection that reads answers of another version. -/
def withResponseVersion (connection : Connection σ) (version : Soap.Version) : Connection σ :=
  { connection with responseVersion := version }

/-- Hands over the transport, if the connection still owns it. -/
def release (connection : Connection σ) : Option σ × Connection σ :=
  (connection.transport, { connection with transport := none })

variable [HttpTransport σ]

/-- Reads the answer: from the response, or once from the entity of the error. -/
def receive (version : Soap.Version) (transport : σ) :
    Outcome σ (Except Soap.MessageError Soap.Message) :=
  let (opened, transport) := HttpTransport.openInput transport
  let primary :=
    match opened with
    | .ok stream => Soap.Message.ofStream version stream
    | .error error => .error (.io error)
  match primary with
  | .error (.io error) =>
    let (entity, transport) := HttpTransport.openError transport
    match entity with
    | some stream => ⟨Soap.Message.ofStream version stream, transport, [.inputFailed error]⟩
    | none => ⟨.error (.io error), transport, [.inputFailed error]⟩
  | result => ⟨result, transport, []⟩

def queue (transport : σ) (headers : List Header) : σ :=
  headers.foldl HttpTransport.addHeader transport

/-- Sends a request and reads the answer. -/
def send (version : Soap.Version) (headers : CallHeaders) (endpoint : Url) (body : Bytes)
    (transport : σ) : Outcome σ (Except SoapError Soap.Message) :=
  let sending :=
    LogEvent.sendingRequest endpoint headers.contentType headers.soapAction body.length
  match HttpTransport.connect (queue transport headers.toList) endpoint body with
  | (.error error, transport) =>
    ⟨.error (.transport error), transport, [sending, .connectFailed endpoint error]⟩
  | (.ok (), transport) =>
    let answer := receive version transport
    ⟨answer.result.mapError .message, answer.transport, sending :: answer.log⟩

/-- Disconnects the transport, if the connection still owns it. -/
def close (connection : Connection σ) : Connection σ :=
  { connection with transport := connection.transport.map HttpTransport.disconnect }

variable [Url.Reader]

/-- Checks a request and sends it. -/
def exchange (version : Soap.Version) (request : Soap.Message) (endpoint : String)
    (transport : σ) : Outcome σ (Except CallError Soap.Message) :=
  match CallHeaders.ofMime request.mime with
  | .error violation => ⟨.error (.protocol violation), transport, []⟩
  | .ok headers =>
    match Url.parse endpoint with
    | .error cause => ⟨.error (.soap (.setup (.endpoint endpoint cause))), transport, []⟩
    | .ok url =>
      let sent := send version headers url request.content transport
      ⟨sent.result.mapError .soap, sent.transport, sent.log⟩

/-- Sends a message to an endpoint: the answer, the connection afterwards, and what was
reported. -/
def call (connection : Connection σ) (request : Soap.Message) (endpoint : String) :
    Except CallError Soap.Message × Connection σ × Log :=
  match connection.transport with
  | none => (.error (.soap (.setup .released)), connection, [])
  | some transport =>
    let done := exchange connection.responseVersion request endpoint transport
    (done.result,
      { connection with transport := some (HttpTransport.disconnect done.transport) },
      done.log ++ [.disconnected])

end Connection

end KerberosHttp
