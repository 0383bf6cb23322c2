import KerberosHttp.Soap.Envelope
import KerberosHttp.Soap.Mime
import KerberosHttp.Transport.Stream

/-!
# SOAP messages

A message is the octets of an envelope, what they say, and MIME headers.  It is
only ever made from octets that are an envelope of its version, so what it says is
always what its octets say.  Changing the headers changes nothing else.
-/

namespace KerberosHttp.Soap

structure Message where
  version : Version
  mime : MimeHeaders
  /-- The envelope as it is sent -/
  content : Bytes
  envelope : Envelope
  envelope_eq : Envelope.read version content = .ok envelope

namespace Message

/-- The local name of the first element in the body. -/
def operation (message : Message) : Option String := message.envelope.operation

def fault (message : Message) : Option Fault := message.envelope.fault

def isFault (message : Message) : Bool := message.fault.isSome

def ofBytes (version : Version) (content : Bytes) : Except MessageError Message :=
  match h : Envelope.read version content with
  | .ok envelope => .ok ⟨version, ∅, content, envelope, h⟩
  | .error error => .error error

/-- What stands before the body's content in an envelope. -/
def opening (version : Version) : String :=
  "<?xml version=\"1.0\" encoding=\"UTF-8\"?><env:Envelope xmlns:env=\"" ++ version.uri
    ++ "\"><env:Body>"

/-- What stands after the body's content in an envelope. -/
def closing : String := "</env:Body></env:Envelope>"

/-- The message whose body holds some XML. -/
def ofBody (version : Version) (body : String) : Except MessageError Message :=
  ofBytes version (Utf8.encode (opening version ++ body ++ closing))

/-- The message that a stream gives. -/
def ofStream (version : Version) (stream : Stream) : Except MessageError Message :=
  match stream.readToEnd with
  | .ok content => ofBytes version content
  | .error error => .error (.io error)

/-- The message after changes of its headers. -/
def editMime (message : Message) (edits : List MimeEdit) : Message :=
  { message with mime := message.mime.editAll edits }

section EditMime

variable (message : Message) (edits : List MimeEdit)

@[simp] theorem editMime_version : (message.editMime edits).version = message.version := rfl

@[simp] theorem editMime_content : (message.editMime edits).content = message.content := rfl

@[simp] theorem editMime_operation :
    (message.editMime edits).operation = message.operation := rfl

@[simp] theorem editMime_fault : (message.editMime edits).fault = message.fault := rfl

end EditMime

end Message

end KerberosHttp.Soap
