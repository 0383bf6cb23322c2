import KerberosHttp.Text.Ascii

/-!
# JSON tokens

The lexical units of a JSON text.  A string is kept as the units that its text
spells, so that a reader who skips it need not mind whether its escapes pair up
to characters, and a number is kept as the digits that were written.

`Token.readAll` reads as far as the text is made of tokens and says whether it
came to the end.
-/

namespace KerberosHttp.Json

/-- A unit of a string: a character, or a code unit written as an escape. -/
inductive StringUnit
  | char (c : Char)
  | escaped (unit : Nat)
  deriving DecidableEq, Repr

/-- A number as it is written. -/
structure NumberText where
  /-- Whether a minus sign comes first -/
  negative : Bool
  /-- The digits before the point -/
  whole : List Nat
  /-- The digits after the point, none if there is no point -/
  fraction : List Nat
  /-- Whether a point or an exponent is written -/
  isReal : Bool
  /-- Whether the exponent has a minus sign -/
  exponentNegative : Bool
  /-- The digits of the exponent, none if there is no exponent -/
  exponent : List Nat
  deriving DecidableEq, Repr

inductive Token
  | openBrace | closeBrace | openBracket | closeBracket | colon | comma
  | string (units : List StringUnit)
  | number (text : NumberText)
  | boolean (value : Bool)
  | null
  deriving DecidableEq, Repr

/-- The white space of JSON. -/
def isSpace (c : Char) : Bool :=
  c = ' ' || c = '\t' || c = '\n' || c = '\r'

/-- The character that a short escape stands for. -/
def shortEscape? : Char → Option Char
  | '"' => some '"'
  | '\\' => some '\\'
  | '/' => some '/'
  | 'b' => some '\x08'
  | 'f' => some '\x0c'
  | 'n' => some '\n'
  | 'r' => some '\r'
  | 't' => some '\t'
  | _ => none

/-- The code unit that four hexadecimal digits name. -/
def codeUnit? (a b c d : Char) : Option Nat := do
  let a ← Ascii.hexValue? a
  let b ← Ascii.hexValue? b
  let c ← Ascii.hexValue? c
  let d ← Ascii.hexValue? d
  return ((a * 16 + b) * 16 + c) * 16 + d

/-- Reads a string after its opening quote: its units and what follows it. -/
def stringBody : List Char → Option (List StringUnit × List Char)
  | [] => none
  | '"' :: rest => some ([], rest)
  | '\\' :: 'u' :: a :: b :: c :: d :: rest => do
    let unit ← codeUnit? a b c d
    let (units, rest) ← stringBody rest
    return (.escaped unit :: units, rest)
  | '\\' :: c :: rest => do
    let c ← shortEscape? c
    let (units, rest) ← stringBody rest
    return (.char c :: units, rest)
  | c :: rest =>
    if c = '\\' ∨ c < ' ' then none
    else (stringBody rest).map fun (units, rest) => (.char c :: units, rest)

/-- The digits at the front, and what follows them. -/
def digits (chars : List Char) : List Nat × List Char :=
  ((chars.takeWhile Char.isDigit).map fun c => c.toNat - '0'.toNat, chars.dropWhile Char.isDigit)

/-- Reads the point and the digits after it, if there is a point. -/
def fractionPart : List Char → Option (Option (List Nat) × List Char)
  | '.' :: rest =>
    match digits rest with
    | ([], _) => none
    | (found, rest) => some (some found, rest)
  | rest => some (none, rest)

/-- Reads an exponent, if there is one: whether it is negative, and its digits. -/
def exponentPart : List Char → Option (Option (Bool × List Nat) × List Char)
  | c :: rest =>
    if c = 'e' ∨ c = 'E' then
      let (negative, rest) :=
        match rest with
        | '+' :: rest => (false, rest)
        | '-' :: rest => (true, rest)
        | rest => (false, rest)
      match digits rest with
      | ([], _) => none
      | (found, rest) => some (some (negative, found), rest)
    else some (none, c :: rest)
  | [] => some (none, [])

/-- Reads a number without its sign.  Nothing but a point or an exponent may follow
a leading zero. -/
def numberBody (negative : Bool) (chars : List Char) : Option (NumberText × List Char) :=
  match digits chars with
  | ([], _) => none
  | (0 :: _ :: _, _) => none
  | (whole, rest) => do
    let (fraction, rest) ← fractionPart rest
    let (exponent, rest) ← exponentPart rest
    return ({ negative, whole, fraction := fraction.getD [],
              isReal := fraction.isSome || exponent.isSome,
              exponentNegative := (exponent.map (·.1)).getD false,
              exponent := (exponent.map (·.2)).getD [] }, rest)

/-- Reads the token at the front of a text that begins with no white space. -/
def Token.read? : List Char → Option (Token × List Char)
  | '\x7b' :: rest => some (.openBrace, rest)
  | '\x7d' :: rest => some (.closeBrace, rest)
  | '[' :: rest => some (.openBracket, rest)
  | ']' :: rest => some (.closeBracket, rest)
  | ':' :: rest => some (.colon, rest)
  | ',' :: rest => some (.comma, rest)
  | '"' :: rest => (stringBody rest).map fun (units, rest) => (.string units, rest)
  | 't' :: 'r' :: 'u' :: 'e' :: rest => some (.boolean true, rest)
  | 'f' :: 'a' :: 'l' :: 's' :: 'e' :: rest => some (.boolean false, rest)
  | 'n' :: 'u' :: 'l' :: 'l' :: rest => some (.null, rest)
  | '-' :: rest => (numberBody true rest).map fun (text, rest) => (.number text, rest)
  | rest => (numberBody false rest).map fun (text, rest) => (.number text, rest)

/-- What was read of a text, and whether that is all of it. -/
structure Reading (α : Type) where
  items : List α
  complete : Bool
  deriving DecidableEq, Repr

/-- Reads at most `limit` tokens. -/
def Token.readUpTo : Nat → List Char → Reading Token
  | limit, text =>
    match text.dropWhile isSpace, limit with
    | [], _ => ⟨[], true⟩
    | _, 0 => ⟨[], false⟩
    | chars, limit + 1 =>
      match Token.read? chars with
      | none => ⟨[], false⟩
      | some (token, rest) =>
        let after := Token.readUpTo limit rest
        ⟨token :: after.items, after.complete⟩

/-- The tokens of a text.  Each takes at least one character. -/
def Token.readAll (text : String) : Reading Token :=
  Token.readUpTo text.length text.toList

end KerberosHttp.Json
