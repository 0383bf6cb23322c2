import KerberosHttp.Text.Ascii

/-!
# MIME headers

The headers of a message before it is sent: names and values of any text, in the
order in which they were added.  A name may have several values, and its case
does not count.
-/

namespace KerberosHttp.Soap

structure MimeHeader where
  name : String
  value : String
  deriving DecidableEq, Repr

/-- The headers of a message. -/
structure MimeHeaders where
  entries : List MimeHeader
  deriving DecidableEq, Repr

namespace MimeHeaders

instance : EmptyCollection MimeHeaders := ⟨⟨[]⟩⟩

/-- Every value of a name, in order. -/
def values (headers : MimeHeaders) (name : String) : List String :=
  (headers.entries.filter fun entry => Ascii.SameName entry.name name).map (·.value)

/-- Adds a value, whatever values its name has. -/
def add (headers : MimeHeaders) (name value : String) : MimeHeaders :=
  ⟨headers.entries ++ [⟨name, value⟩]⟩

/-- Takes every value of a name away. -/
def remove (headers : MimeHeaders) (name : String) : MimeHeaders :=
  ⟨headers.entries.filter fun entry => ¬ Ascii.SameName entry.name name⟩

/-- Gives a name one value in place of all it has. -/
def set (headers : MimeHeaders) (name value : String) : MimeHeaders :=
  (headers.remove name).add name value

def size (headers : MimeHeaders) : Nat := headers.entries.length

def isEmpty (headers : MimeHeaders) : Bool := headers.entries.isEmpty

end MimeHeaders

inductive MimeEdit
  | add (name value : String)
  | set (name value : String)
  | remove (name : String)
  deriving DecidableEq, Repr

/-- The headers after a change. -/
def MimeHeaders.edit (headers : MimeHeaders) : MimeEdit → MimeHeaders
  | .add name value => headers.add name value
  | .set name value => headers.set name value
  | .remove name => headers.remove name

def MimeHeaders.editAll (headers : MimeHeaders) (edits : List MimeEdit) : MimeHeaders :=
  edits.foldl MimeHeaders.edit headers

end KerberosHttp.Soap
