import KerberosHttp.Http.Header
import KerberosHttp.Soap.Mime
import KerberosHttp.Soap.Version

/-!
# The HTTP headers of a call

A call sends two headers of its message: the content type, which has a default,
and the SOAP action, if there is one.  Each may have one value only, and that value
must be one that can be sent.
-/

namespace KerberosHttp

/-- What is wrong with a header of a message. -/
inductive ViolationKind
  | duplicateContentType
  | duplicateSoapAction
  | invalidValue (header : String)
  deriving DecidableEq, Repr

/-- A header of a message that cannot be sent, with an explanation. -/
structure Violation where
  kind : ViolationKind
  text : String
  deriving DecidableEq, Repr

def ViolationKind.display : ViolationKind → String
  | duplicateContentType => "duplicate Content-Type"
  | duplicateSoapAction => "duplicate SOAPAction"
  | invalidValue header => "invalid value for '" ++ header ++ "'"

def Violation.message (violation : Violation) : String :=
  violation.kind.display ++ ": " ++ violation.text

/-- The headers that a call sends. -/
structure CallHeaders where
  contentType : HeaderValue
  soapAction : Option HeaderValue
  deriving DecidableEq

namespace CallHeaders

/-- The one value of a header that may have one. -/
def singleValue (mime : Soap.MimeHeaders) (name : String) (duplicate : ViolationKind) :
    Except Violation (Option HeaderValue) :=
  match mime.values name with
  | [] => .ok none
  | [value] =>
    match HeaderValue.ofString? value with
    | some value => .ok (some value)
    | none => .error ⟨.invalidValue name, name ++ " value cannot be sent as an HTTP header"⟩
  | _ => .error ⟨duplicate, name ++ " defined more than once"⟩

/-- The content type of a version as a header value. -/
def defaultContentType : Soap.Version → HeaderValue
  | .v1_1 => ⟨Bytes.ofAscii (Soap.Version.contentType .v1_1), rfl⟩
  | .v1_2 => ⟨Bytes.ofAscii (Soap.Version.contentType .v1_2), rfl⟩

/-- The headers for a message.  An action without a content type makes it a message of
the earlier version. -/
def ofMime (mime : Soap.MimeHeaders) : Except Violation CallHeaders := do
  let contentType ← singleValue mime "Content-Type" .duplicateContentType
  let soapAction ← singleValue mime "SOAPAction" .duplicateSoapAction
  let version : Soap.Version := if soapAction.isSome then .v1_1 else .v1_2
  return ⟨contentType.getD (defaultContentType version), soapAction⟩

def toList (headers : CallHeaders) : List Header :=
  ⟨.contentType, headers.contentType⟩ ::
    (headers.soapAction.map (Header.mk .soapAction)).toList

end CallHeaders

end KerberosHttp
