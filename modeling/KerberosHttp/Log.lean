import KerberosHttp.Http.Header
import KerberosHttp.Text.Quoted
import KerberosHttp.Transport.Error
import KerberosHttp.Url.Basic

/-!
# The log

Everything this library reports while it works, as data: which event it was and
the values that belong to it.  How an event is shown is decided in one place,
`LogEvent.message` and `LogEvent.fields`.
-/

namespace KerberosHttp

inductive LogLevel
  | debug
  | warn
  deriving DecidableEq, Repr

/-- A value in an event as it is shown. -/
inductive LogValue
  | text (value : String)
  | number (value : Nat)
  | flag (value : Bool)
  deriving DecidableEq, Repr

/-- Something that is reported. -/
inductive LogEvent
  | transportOpened (loginModule : Option String)
  | loginFailed (loginModule : Option String) (error : TransportError)
  /-- A request is about to be sent. -/
  | sendingRequest (endpoint : Url) (contentType : HeaderValue)
      (soapAction : Option HeaderValue) (bodyLength : Nat)
  | connectFailed (endpoint : Url) (error : TransportError)
  /-- The response could not be read, and the error stream is looked at. -/
  | inputFailed (error : IoError)
  /-- The transport was disconnected after a call. -/
  | disconnected
  | disposalFailed (error : TransportError)
  /-- An inbound request could not be authenticated. -/
  | negotiationFailed (error : TransportError)
  /-- A principal came of a request without the header it should come from. -/
  | unfoundedPrincipal (name : String)
  /-- An inbound request was authenticated. -/
  | authenticated (name : String) (delegated : Bool)
  /-- A scheme was asked of an authenticated request without the header. -/
  | missingAuthorization (name : String)
  deriving DecidableEq

/-- Events in the order in which they were reported. -/
abbrev Log := List LogEvent

namespace LogEvent

def level : LogEvent → LogLevel
  | transportOpened _ => .debug
  | loginFailed _ _ => .warn
  | sendingRequest _ _ _ _ => .debug
  | connectFailed _ _ => .warn
  | inputFailed _ => .debug
  | disconnected => .debug
  | disposalFailed _ => .warn
  | negotiationFailed _ => .warn
  | unfoundedPrincipal _ => .warn
  | authenticated _ _ => .debug
  | missingAuthorization _ => .warn

/-- What is said of an event, whatever its values are. -/
def message : LogEvent → String
  | transportOpened _ => "authenticated transport opened"
  | loginFailed _ _ => "client login failed"
  | sendingRequest _ _ _ _ => "sending SOAP request"
  | connectFailed _ _ => "authenticated connect failed"
  | inputFailed _ => "input stream failed, reading error stream"
  | disconnected => "transport disconnected"
  | disposalFailed _ => "failed to dispose GSS credential"
  | negotiationFailed _ => "SPNEGO negotiation failed"
  | unfoundedPrincipal _ => "negotiator produced a principal without an Authorization header"
  | authenticated _ _ => "request authenticated"
  | missingAuthorization _ => "authenticated request has no Authorization header"

/-- The values of an event by name. -/
def fields : LogEvent → List (String × LogValue)
  | transportOpened loginModule => [("login_module", .text (loginText loginModule))]
  | loginFailed loginModule error =>
    [("login_module", .text (loginText loginModule)), ("error", .text error.message)]
  | sendingRequest endpoint contentType soapAction bodyLength =>
    [("endpoint", .text endpoint.render),
      ("content_type", .text contentType.quoted),
      ("soap_action", .text (Text.quoteOption (soapAction.map HeaderValue.quoted))),
      ("body_len", .number bodyLength)]
  | connectFailed endpoint error =>
    [("endpoint", .text endpoint.render), ("error", .text error.message)]
  | inputFailed error => [("error", .text error.text)]
  | disconnected => []
  | disposalFailed error => [("error", .text error.message)]
  | negotiationFailed error => [("error", .text error.message)]
  | unfoundedPrincipal name => [("principal", .text name)]
  | authenticated name delegated => [("principal", .text name), ("delegated", .flag delegated)]
  | missingAuthorization name => [("principal", .text name)]
where
  /-- A login module as it is shown. -/
  loginText (loginModule : Option String) : String :=
    Text.quoteOption (loginModule.map Text.quote)

end LogEvent

end KerberosHttp
