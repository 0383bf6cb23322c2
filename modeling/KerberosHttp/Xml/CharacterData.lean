import KerberosHttp.Xml.Error

/-!
# Character data

The text that character data stands for.  It is UTF-8, and a reference in it
stands for one character: one of the five named ones, or any by its number.
-/

namespace KerberosHttp.Xml

/-- The character that a name stands for. -/
def namedCharacter? (name : List Char) : Option Char :=
  if name = ['l', 't'] then some '<'
  else if name = ['g', 't'] then some '>'
  else if name = ['a', 'm', 'p'] then some '&'
  else if name = ['a', 'p', 'o', 's'] then some '\''
  else if name = ['q', 'u', 'o', 't'] then some '"'
  else none

/-- Reads digits of a base to a number below 2^32. -/
def readCode (base value : Nat) : List Char → Except CharacterError Nat
  | [] => .ok value
  | digit :: rest =>
    match Ascii.digitValue? base digit with
    | none => .error .digit
    | some digit =>
      if value * base + digit < 0x100000000 then readCode base (value * base + digit) rest
      else .error .overflow

/-- The number that a numeric reference writes after its sign. -/
def characterCode (number : List Char) : Except CharacterError Nat :=
  let (base, digits) :=
    match number with
    | 'x' :: digits => (16, digits)
    | digits => (10, digits)
  match digits with
  | [] => .error .empty
  | first :: _ =>
    if first = '+' ∨ first = '-' then .error .sign else readCode base 0 digits

/-- The character that a numeric reference names. -/
def numberedCharacter (number : List Char) : Except CharacterError Char := do
  let code ← characterCode number
  if code = 0 then .error .zero
  else if code.isValidChar then .ok (Char.ofNat code)
  else .error (.codePoint code)

/-- The character that stands between the ampersand at `start` and the semicolon at
`stop`. -/
def resolve (start stop : Nat) (reference : List Char) : Except ReferenceError Char :=
  match reference with
  | '#' :: number =>
    match numberedCharacter number with
    | .ok c => .ok c
    | .error cause => .error (.character cause)
  | name =>
    match namedCharacter? name with
    | some c => .ok c
    | none => .error (.unrecognized (start + 1) stop (String.ofList name))

/-- A reference that has begun: the place of its ampersand, and what was read of it,
last character first. -/
structure OpenReference where
  start : Nat
  seen : List Char

/-- Resolves the references in the characters from `position` on; the data ends at
`stop`. -/
def resolveFrom (stop position : Nat) : Option OpenReference → List Char →
    Except ReferenceError (List Char)
  | none, [] => .ok []
  | some reference, [] => .error (.unterminated reference.start stop)
  | none, c :: rest =>
    if c = '&' then resolveFrom stop (position + 1) (some ⟨position, []⟩) rest
    else (resolveFrom stop (position + c.utf8Size) none rest).map (c :: ·)
  | some reference, c :: rest =>
    if c = '&' then .error (.unterminated reference.start stop)
    else if c = ';' then do
      let character ← resolve reference.start position reference.seen.reverse
      (resolveFrom stop (position + 1) none rest).map (character :: ·)
    else
      resolveFrom stop (position + c.utf8Size) (some ⟨reference.start, c :: reference.seen⟩) rest

/-- The text that character data stands for. -/
def unescape (content : Bytes) : Except Error String :=
  match Utf8.decode content with
  | .error cause => .error (.encoding cause)
  | .ok text =>
    match resolveFrom content.length 0 none text.toList with
    | .error cause => .error (.reference cause)
    | .ok chars => .ok (String.ofList chars)

end KerberosHttp.Xml
