import KerberosHttp.Xml.Token

/-!
# Name spaces

The attributes of a tag that bind prefixes to name spaces, and the name space of
an element.

Attributes are read in order up to the first one that is malformed.  Of several
bindings of one prefix the last one counts, and binding a prefix to nothing
undoes it.
-/

namespace KerberosHttp.Xml

structure Attribute where
  key : Bytes
  value : Bytes
  deriving DecidableEq, Repr

/-- What the reader of attributes is in the middle of; octets come last one first. -/
inductive AttributeReading
  /-- White space before a key -/
  | gap
  | key (seen : Bytes)
  /-- White space after a key -/
  | afterKey (key : Bytes)
  /-- What follows the equals sign, up to the quote -/
  | afterEquals (key : Bytes)
  | value (key : Bytes) (quote : UInt8) (seen : Bytes)
  deriving DecidableEq, Repr

/-- The attributes up to the first malformed one. -/
def attributesFrom : AttributeReading → Bytes → List Attribute
  | _, [] => []
  | .gap, octet :: rest =>
    if isSpace octet then attributesFrom .gap rest else attributesFrom (.key [octet]) rest
  | .key seen, octet :: rest =>
    if octet = '='.toUInt8 then attributesFrom (.afterEquals seen.reverse) rest
    else if isSpace octet then attributesFrom (.afterKey seen.reverse) rest
    else attributesFrom (.key (octet :: seen)) rest
  | .afterKey key, octet :: rest =>
    if isSpace octet then attributesFrom (.afterKey key) rest
    else if octet = '='.toUInt8 then attributesFrom (.afterEquals key) rest
    else []
  | .afterEquals key, octet :: rest =>
    if isSpace octet then attributesFrom (.afterEquals key) rest
    else if octet = '"'.toUInt8 ∨ octet = '\''.toUInt8 then
      attributesFrom (.value key octet []) rest
    else []
  | .value key quote seen, octet :: rest =>
    if octet = quote then ⟨key, seen.reverse⟩ :: attributesFrom .gap rest
    else attributesFrom (.value key quote (octet :: seen)) rest

/-- The name of a tag: what stands before the first white space. -/
def tagName (content : Bytes) : Bytes := content.takeWhile fun octet => !isSpace octet

/-- The attributes of a tag. -/
def tagAttributes (content : Bytes) : List Attribute :=
  attributesFrom .gap (content.dropWhile fun octet => !isSpace octet)

/-! ## Bindings -/

structure Binding where
  label : Option Bytes
  uri : Bytes
  deriving DecidableEq, Repr

/-- The bindings that hold in every document. -/
def reservedBindings : List Binding :=
  [⟨some (Bytes.ofAscii "xml"), Bytes.ofAscii xmlUri⟩,
    ⟨some (Bytes.ofAscii "xmlns"), Bytes.ofAscii xmlnsUri⟩]

/-- The binding that an attribute declares, if it declares one.  A prefix without
characters counts as none. -/
def Attribute.binding? (declared : Attribute) : Except NamespaceError (Option Binding) :=
  match (Bytes.ofAscii "xmlns").dropStart? declared.key with
  | none => .ok none
  | some [] => .ok (some ⟨none, declared.value⟩)
  | some (sign :: label) =>
    if sign ≠ ':'.toUInt8 then .ok none
    else if label = Bytes.ofAscii "xml" then
      if declared.value = Bytes.ofAscii xmlUri then .ok none
      else .error (.xmlTo declared.value)
    else if label = Bytes.ofAscii "xmlns" then .error (.xmlnsTo declared.value)
    else if declared.value = Bytes.ofAscii xmlUri then .error (.toXml label)
    else if declared.value = Bytes.ofAscii xmlnsUri then .error (.toXmlns label)
    else .ok (some ⟨if label.isEmpty then none else some label, declared.value⟩)

/-- The bindings that attributes add to those in scope.  The latest comes first. -/
def bindingsIn (scope : List Binding) : List Attribute → Except NamespaceError (List Binding)
  | [] => .ok scope
  | declared :: rest =>
    match declared.binding? with
    | .error cause => .error cause
    | .ok none => bindingsIn scope rest
    | .ok (some binding) => bindingsIn (binding :: scope) rest

/-- The prefix of a name, if it has one, and the rest. -/
def splitName (name : Bytes) : Option Bytes × Bytes :=
  let label := name.takeWhile (· ≠ ':'.toUInt8)
  match name.drop label.length with
  | [] => (none, name)
  | _ :: rest => (some label, rest)

/-- The name space that names with a prefix, or without one, are in. -/
def lookup (scope : List Binding) (label : Option Bytes) : Option Bytes :=
  match scope.find? (·.label = label) with
  | some binding => if binding.uri.isEmpty then none else some binding.uri
  | none => none

end KerberosHttp.Xml
