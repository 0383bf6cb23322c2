import KerberosHttp.Xml.CharacterData
import KerberosHttp.Xml.Namespace

/-!
# XML documents

A document is the sequence of its events, up to the place where it stops being
well formed, if there is one.  Elements come with their name space; an end comes
only for the element that began last.

Elements that are still open at the end of the text are no error of the document:
its events then simply hold more beginnings than ends.
-/

namespace KerberosHttp.Xml

/-- The name of an element: the part after its prefix, and its name space if it is
in one. -/
structure ElementName where
  localName : String
  space : Option Bytes
  deriving DecidableEq, Repr

/-- Something that a document says. -/
inductive Event
  | start (name : ElementName)
  /-- An element without content stands here. -/
  | empty (name : ElementName)
  /-- The element that began last ends. -/
  | close
  /-- Characters, as they are written -/
  | text (content : Bytes)
  /-- Characters that stand for themselves -/
  | cdata (content : Bytes)
  | doctype
  /-- A comment, an instruction or a declaration -/
  | other
  deriving DecidableEq, Repr

/-- An element that has begun: its name as it is written, and the bindings in it. -/
structure OpenElement where
  name : Bytes
  scope : List Binding
  deriving DecidableEq, Repr

/-- The elements that have begun and not ended, the last one first. -/
abbrev Nesting := List OpenElement

/-- The bindings that hold where the next tag stands. -/
def Nesting.scope : Nesting → List Binding
  | [] => reservedBindings
  | innermost :: _ => innermost.scope

/-- A name for an error text, empty if it is not UTF-8. -/
def shownName (name : Bytes) : String :=
  match Utf8.decode name with
  | .ok text => text
  | .error _ => ""

/-- The name that an end tag gives: without the white space after it, unless there is
nothing else. -/
def endName (content : Bytes) : Bytes :=
  match content.reverse.dropWhile isSpace with
  | [] => content
  | name => name.reverse

/-- The element of a tag, with the name by which it is known. -/
def OpenElement.ofTag (nesting : Nesting) (content : Bytes) :
    Except Error (OpenElement × ElementName) :=
  match bindingsIn nesting.scope (tagAttributes content) with
  | .error cause => .error (.binding cause)
  | .ok scope =>
    let name := tagName content
    let (label, localPart) := splitName name
    .ok (⟨name, scope⟩, ⟨Utf8.decodeLossy localPart, lookup scope label⟩)

/-- The event of a token, and the elements that are open after it. -/
def Nesting.step (nesting : Nesting) : Token → Except Error (Nesting × Event)
  | .text content => .ok (nesting, .text content)
  | .cdata content => .ok (nesting, .cdata content)
  | .comment _ => .ok (nesting, .other)
  | .instruction _ => .ok (nesting, .other)
  | .doctype _ => .ok (nesting, .doctype)
  | .startTag content =>
    (OpenElement.ofTag nesting content).map fun (element, name) =>
      (element :: nesting, .start name)
  | .emptyTag content =>
    (OpenElement.ofTag nesting content).map fun (_, name) => (nesting, .empty name)
  | .endTag content =>
    let found := endName content
    match nesting with
    | [] => .error (.nesting (.unmatchedEnd (shownName found)))
    | innermost :: outer =>
      if innermost.name = found then .ok (outer, .close)
      else .error (.nesting (.mismatchedEnd (shownName innermost.name) (shownName found)))

/-- What a text says, and why it says no more, if it does not end well. -/
structure Document where
  events : List Event
  failure : Option Error
  deriving DecidableEq, Repr

/-- The document of tokens that stand inside open elements. -/
def Document.ofTokens (nesting : Nesting) : List Token → Option Error → Document
  | [], failure => ⟨[], failure⟩
  | token :: rest, failure =>
    match nesting.step token with
    | .error error => ⟨[], some error⟩
    | .ok (inner, event) =>
      let document := Document.ofTokens inner rest failure
      ⟨event :: document.events, document.failure⟩

/-- The document that a text spells. -/
def Document.read (content : Bytes) : Document :=
  let (tokens, failure) := readTokens content
  Document.ofTokens [] tokens failure

end KerberosHttp.Xml
