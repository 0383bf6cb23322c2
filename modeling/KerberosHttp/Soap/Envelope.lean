import KerberosHttp.Soap.Version
import KerberosHttp.Text.Blank
import KerberosHttp.Transport.Error
import KerberosHttp.Xml.Document

/-!
# SOAP envelopes

What a message says, found in one pass over the events of its XML: the operation,
which is the first element in the body, and the fault, if that element is one.

## The pass

`Scan` is the state of the pass.  Its path holds the elements that are open, the
innermost first, each with its name and whether it is in the name space of the
envelope.  `Scan.step` reads one event; the first event that does not belong in an
envelope ends the pass, and only a document without such an event is judged as a
whole by `Scan.finish`.

## Fault fields

Character data counts only where the path spells a field of a fault: its code or
its reason.  The names on the path below the body are compared without their name
spaces.  All text at the path of the code is kept, and of the reasons only the
first element's.
-/

namespace KerberosHttp.Soap

/-- Why octets are no envelope of a version. -/
inductive MessageError
  | io (cause : IoError)
  | xml (cause : Xml.Error)
  | doctype
  | missingEnvelope
  /-- The envelope is in another name space. -/
  | versionMismatch (expected : Version) (found : String)
  | missingBody
  /-- A character data section of a fault is not UTF-8. -/
  | utf8 (cause : Utf8.Error)
  /-- Another element follows the envelope. -/
  | extraRoot (name : String)
  /-- They end before every element has ended. -/
  | truncated
  deriving DecidableEq, Repr

def MessageError.message : MessageError → String
  | .io cause => "failed to read SOAP message: " ++ cause.text
  | .xml cause => "malformed XML: " ++ cause.message
  | .doctype => "DOCTYPE declarations are not allowed in SOAP messages"
  | .missingEnvelope => "no SOAP Envelope found"
  | .versionMismatch expected found =>
    "expected a " ++ expected.name ++ " envelope, found namespace '" ++ found ++ "'"
  | .missingBody => "SOAP Envelope has no Body"
  | .utf8 cause => "SOAP message text is not valid UTF-8: " ++ cause.message
  | .extraRoot name => "unexpected element '" ++ name ++ "' after the SOAP Envelope"
  | .truncated => "SOAP message is truncated"

def MessageError.sources : MessageError → List String
  | .io cause => [cause.text]
  | .xml cause => [cause.message]
  | .utf8 cause => [cause.message]
  | _ => []

/-- A fault that a body carries. -/
structure Fault where
  code : String
  reason : String
  deriving DecidableEq, Repr

/-- A fault in one line. -/
def Fault.summary (fault : Fault) : String :=
  "[" ++ fault.code ++ "] " ++ fault.reason

/-- What an envelope says. -/
structure Envelope where
  /-- The local name of the first element in the body -/
  operation : Option String
  /-- The fault, if that element is one -/
  fault : Option Fault
  deriving DecidableEq, Repr

/-! ## The path of open elements -/

/-- An element that is open. -/
structure Ancestor where
  name : String
  /-- Whether it is in the name space of the envelope -/
  inEnvelope : Bool
  deriving DecidableEq, Repr

/-- The open elements, the innermost first. -/
abbrev Path := List Ancestor

def Ancestor.isBody (ancestor : Ancestor) : Bool :=
  ancestor.name = "Body" && ancestor.inEnvelope

/-- A part of a fault that text belongs to. -/
inductive FaultField
  | code
  | reason
  deriving DecidableEq, Repr

/-- The names of the elements from a field up to its fault. -/
def FaultField.trail : Version → FaultField → List String
  | .v1_1, .code => ["faultcode", "Fault"]
  | .v1_1, .reason => ["faultstring", "Fault"]
  | .v1_2, .code => ["Value", "Code", "Fault"]
  | .v1_2, .reason => ["Text", "Reason", "Fault"]

/-- Whether a path leads through a body below the root to the given names. -/
def Path.leadsTo (path : Path) (trail : List String) : Bool :=
  match path.drop trail.length with
  | [body, _] => body.isBody && (path.take trail.length).map (·.name) == trail
  | _ => false

/-- The field at the end of a path, if it ends at one. -/
def Path.field? (version : Version) (path : Path) : Option FaultField :=
  if path.leadsTo (FaultField.code.trail version) then some .code
  else if path.leadsTo (FaultField.reason.trail version) then some .reason
  else none

/-! ## The pass -/

/-- The state of the pass over a document. -/
structure Scan where
  path : Path
  sawEnvelope : Bool
  sawBody : Bool
  operation : Option String
  /-- The fault with its text as it stands so far -/
  fault : Option Fault
  /-- How many elements of reasons have begun -/
  reasons : Nat
  deriving DecidableEq, Repr

namespace Scan

def start : Scan := ⟨[], false, false, none, none, 0⟩

/-- The field that character data here belongs to. -/
def field? (version : Version) (scan : Scan) : Option FaultField :=
  if scan.fault.isSome then scan.path.field? version else none

/-- Reads the root of the document, which must be an envelope and the only one. -/
def enterRoot (version : Version) (scan : Scan) (element : Xml.ElementName) :
    Except MessageError Scan :=
  if scan.sawEnvelope then .error (.extraRoot element.localName)
  else if element.localName ≠ "Envelope" then .error .missingEnvelope
  else
    match element.space with
    | none => .error .missingEnvelope
    | some uri =>
      if uri = version.uriBytes then .ok { scan with sawEnvelope := true }
      else .error (.versionMismatch version (Utf8.decodeLossy uri))

/-- What an element is to the pass. -/
def ancestor (version : Version) (element : Xml.ElementName) : Ancestor :=
  ⟨element.localName, element.space = some version.uriBytes⟩

/-- Reads the name of an element at the place where it stands. -/
def enter (version : Version) (scan : Scan) (element : Xml.ElementName) :
    Except MessageError Scan :=
  let inEnvelope := element.space = some version.uriBytes
  match scan.path with
  | [] => scan.enterRoot version element
  | [_] =>
    .ok { scan with
      sawBody := scan.sawBody || (element.localName = "Body" && decide inEnvelope) }
  | [body, _] =>
    if body.isBody ∧ scan.operation = none then
      .ok { scan with
        operation := some element.localName
        fault := if element.localName = "Fault" ∧ inEnvelope then some ⟨"", ""⟩ else scan.fault }
    else .ok scan
  | _ => .ok scan

/-- Opens an element that has been entered. -/
def push (version : Version) (scan : Scan) (element : Xml.ElementName) : Scan :=
  let inner := { scan with path := ancestor version element :: scan.path }
  if inner.field? version = some .reason then { inner with reasons := inner.reasons + 1 }
  else inner

/-- Adds text to a field.  Only the first reason is kept. -/
def append (scan : Scan) (field : FaultField) (text : String) : Scan :=
  match scan.fault, field with
  | none, _ => scan
  | some fault, .code => { scan with fault := some { fault with code := fault.code ++ text } }
  | some fault, .reason =>
    if scan.reasons ≤ 1 then
      { scan with fault := some { fault with reason := fault.reason ++ text } }
    else scan

def step (version : Version) (scan : Scan) : Xml.Event → Except MessageError Scan
  | .start element => do
    let scan ← scan.enter version element
    return scan.push version element
  | .empty element => scan.enter version element
  | .close => .ok { scan with path := scan.path.tail }
  | .text content =>
    match scan.field? version with
    | none => .ok scan
    | some field =>
      match Xml.unescape content with
      | .ok text => .ok (scan.append field text)
      | .error cause => .error (.xml cause)
  | .cdata content =>
    match scan.field? version with
    | none => .ok scan
    | some field =>
      match Utf8.decode content with
      | .ok text => .ok (scan.append field text)
      | .error cause => .error (.utf8 cause)
  | .doctype => .error .doctype
  | .other => .ok scan

def run (version : Version) (scan : Scan) : List Xml.Event → Except MessageError Scan
  | [] => .ok scan
  | event :: rest =>
    match scan.step version event with
    | .ok next => run version next rest
    | .error error => .error error

/-- A fault without the blanks around its parts. -/
def trimFault (fault : Fault) : Fault :=
  ⟨Text.trim fault.code, Text.trim fault.reason⟩

/-- Judges a document that has come to its end. -/
def finish (scan : Scan) : Except MessageError Envelope :=
  if scan.path ≠ [] then .error .truncated
  else if !scan.sawEnvelope then .error .missingEnvelope
  else if !scan.sawBody then .error .missingBody
  else .ok ⟨scan.operation, scan.fault.map trimFault⟩

end Scan

namespace Envelope

/-- What a document says as an envelope of a version. -/
def ofDocument (version : Version) (document : Xml.Document) : Except MessageError Envelope :=
  match Scan.start.run version document.events with
  | .error error => .error error
  | .ok scan =>
    match document.failure with
    | some cause => .error (.xml cause)
    | none => scan.finish

/-- What octets say as an envelope of a version. -/
def read (version : Version) (content : Bytes) : Except MessageError Envelope :=
  ofDocument version (Xml.Document.read content)

end Envelope

end KerberosHttp.Soap
