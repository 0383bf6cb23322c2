import KerberosHttp.Text.Ascii
import KerberosHttp.Text.Utf8

/-!
# What is wrong with an XML text

The reasons for which a text is refused, grouped by the stage that finds them:
the shape of the markup, the nesting of tags, the encoding of character data, the
references in it, and the declarations of namespaces.
-/

namespace KerberosHttp.Xml

/-- The end of a construct is missing, or none begins. -/
inductive MarkupError
  | unclosedTag
  | unknownDeclaration
  | unclosedCData
  | unclosedComment
  | unclosedDoctype
  | unclosedInstruction
  deriving DecidableEq, Repr

/-- The tags do not nest, or a document type has no name. -/
inductive NestingError
  | missingDoctypeName
  | mismatchedEnd (expected found : String)
  | unmatchedEnd (found : String)
  deriving DecidableEq, Repr

/-- A numeric reference names no character. -/
inductive CharacterError
  | sign
  | empty
  | digit
  | overflow
  | zero
  | codePoint (number : Nat)
  deriving DecidableEq, Repr

/-- A reference cannot be resolved.  Places are octets of the character data. -/
inductive ReferenceError
  | unterminated (start stop : Nat)
  | unrecognized (start stop : Nat) (name : String)
  | character (cause : CharacterError)
  deriving DecidableEq, Repr

/-- A declaration rebinds what is reserved. -/
inductive NamespaceError
  | xmlTo (uri : Bytes)
  | xmlnsTo (uri : Bytes)
  | toXml (label : Bytes)
  | toXmlns (label : Bytes)
  deriving DecidableEq, Repr

inductive Error
  | markup (cause : MarkupError)
  | nesting (cause : NestingError)
  | encoding (cause : Utf8.Error)
  | reference (cause : ReferenceError)
  | binding (cause : NamespaceError)
  deriving DecidableEq, Repr

/-- The name space of the prefix `xml`. -/
def xmlUri : String := "http://www.w3.org/XML/1998/namespace"

/-- The name space of the prefix `xmlns`. -/
def xmlnsUri : String := "http://www.w3.org/2000/xmlns/"

def MarkupError.message : MarkupError → String
  | .unclosedTag => "tag not closed: `>` not found before end of input"
  | .unknownDeclaration => "unknown or missed symbol in markup"
  | .unclosedCData => "CDATA not closed: `]]>` not found before end of input"
  | .unclosedComment => "comment not closed: `-->` not found before end of input"
  | .unclosedDoctype => "DOCTYPE not closed: `>` not found before end of input"
  | .unclosedInstruction =>
    "processing instruction or xml declaration not closed: `?>` not found before end of input"

def NestingError.message : NestingError → String
  | .missingDoctypeName => "`<!DOCTYPE>` declaration does not contain a name of a document type"
  | .mismatchedEnd expected found => s!"expected `</{expected}>`, but `</{found}>` was found"
  | .unmatchedEnd found => s!"close tag `</{found}>` does not match any open tag"

def CharacterError.message : CharacterError → String
  | .sign => "unexpected number sign"
  | .empty => "cannot parse integer from empty string"
  | .digit => "invalid digit found in string"
  | .overflow => "number too large to fit in target type"
  | .zero => "0x0 character is not permitted in XML"
  | .codePoint number => s!"`{number}` is not a valid codepoint"

def ReferenceError.message : ReferenceError → String
  | .unterminated start stop =>
    s!"Error while escaping character at range {start}..{stop}: Cannot find ';' after '&'"
  | .unrecognized start stop name => s!"at {start}..{stop}: unrecognized entity `{name}`"
  | .character cause => "invalid character reference: " ++ cause.message

/-- One octet of a quoted byte string. -/
def quoteOctet (octet : UInt8) : String :=
  if octet = '"'.toUInt8 then "\\\""
  else if 32 ≤ octet ∧ octet < 127 then (Char.ofNat octet.toNat).toString
  else "0x" ++ Ascii.upperHex octet.toNat

/-- Octets as they are shown: between quotes, with those that are not printable
ASCII in hexadecimal. -/
def quoteBytes (content : Bytes) : String :=
  "\"" ++ String.join (content.map quoteOctet) ++ "\""

def NamespaceError.message : NamespaceError → String
  | .xmlTo uri => "the namespace prefix 'xml' cannot be bound to '" ++ quoteBytes uri ++ "'"
  | .xmlnsTo uri => "the namespace prefix 'xmlns' cannot be bound to '" ++ quoteBytes uri ++ "'"
  | .toXml label =>
    "the namespace prefix '" ++ quoteBytes label ++ "' cannot be bound to '" ++ xmlUri ++ "'"
  | .toXmlns label =>
    "the namespace prefix '" ++ quoteBytes label ++ "' cannot be bound to '" ++ xmlnsUri ++ "'"

def Error.message : Error → String
  | .markup cause => "syntax error: " ++ cause.message
  | .nesting cause => "ill-formed document: " ++ cause.message
  | .encoding cause => "cannot decode input using UTF-8: " ++ cause.message
  | .reference cause => cause.message
  | .binding cause => cause.message

end KerberosHttp.Xml
