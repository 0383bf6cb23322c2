import KerberosHttp.Bytes

/-!
# UTF-8

A text is written as UTF-8, and octets are read back as text in two ways:
`decode` refuses what is not UTF-8 and says where, and `decodeLossy` puts one
replacement character in the place of each part that begins no character.

Both are readings of the same list of `Piece`s, which `pieces` finds in one
pass.  A part that begins no character is as long as possible: it ends before
the first octet that could not have continued it, and that octet is looked at
again.
-/

namespace KerberosHttp.Utf8

/-- The octets of a text. -/
def encode (text : String) : Bytes :=
  text.toList.flatMap String.utf8EncodeChar

theorem encode_append (first second : String) :
    encode (first ++ second) = encode first ++ encode second := by
  simp [encode]

/-- A stretch of octets. -/
inductive Piece
  /-- The octets of one character. -/
  | char (c : Char)
  /-- Octets that begin a character, or cannot begin one, and are not continued. -/
  | invalid (length : Nat)
  /-- Octets that begin a character, up to the end of the input. -/
  | incomplete (length : Nat)
  deriving DecidableEq, Repr

/-- A character of which some octets are still to come. -/
structure Unfinished where
  /-- The bits read so far -/
  bits : Nat
  /-- How many octets were read -/
  read : Nat
  /-- How many octets are missing, less one -/
  missing : Nat
  /-- The least octet that may come next -/
  low : UInt8
  /-- The greatest octet that may come next -/
  high : UInt8
  deriving DecidableEq, Repr

/-- Reads an octet that stands where a character may begin. -/
def lead (octet : UInt8) : List Piece × Option Unfinished :=
  if octet < 0x80 then ([.char (Char.ofNat octet.toNat)], none)
  else if octet < 0xC2 then ([.invalid 1], none)
  else if octet < 0xE0 then ([], some ⟨octet.toNat - 0xC0, 1, 0, 0x80, 0xBF⟩)
  else if octet < 0xF0 then
    ([], some ⟨octet.toNat - 0xE0, 1, 1, if octet = 0xE0 then 0xA0 else 0x80,
      if octet = 0xED then 0x9F else 0xBF⟩)
  else if octet < 0xF5 then
    ([], some ⟨octet.toNat - 0xF0, 1, 2, if octet = 0xF0 then 0x90 else 0x80,
      if octet = 0xF4 then 0x8F else 0xBF⟩)
  else ([.invalid 1], none)

/-- Reads one octet: the pieces it completes, and the character it leaves open. -/
def step : Option Unfinished → UInt8 → List Piece × Option Unfinished
  | none, octet => lead octet
  | some open_, octet =>
    if open_.low ≤ octet ∧ octet ≤ open_.high then
      let bits := open_.bits * 64 + (octet.toNat - 0x80)
      match open_.missing with
      | 0 => ([.char (Char.ofNat bits)], none)
      | missing + 1 => ([], some ⟨bits, open_.read + 1, missing, 0x80, 0xBF⟩)
    else
      let (found, next) := lead octet
      (.invalid open_.read :: found, next)

/-- The pieces of the octets that follow an open character, if there is one. -/
def piecesFrom : Option Unfinished → Bytes → List Piece
  | none, [] => []
  | some open_, [] => [.incomplete open_.read]
  | state, octet :: rest =>
    let (found, next) := step state octet
    found ++ piecesFrom next rest

def pieces (content : Bytes) : List Piece :=
  piecesFrom none content

/-- Why octets are not UTF-8. -/
inductive Error
  /-- Octets from `index` on, `length` of them, begin no character. -/
  | invalid (length index : Nat)
  /-- The input ends inside the character that begins at `index`. -/
  | incomplete (index : Nat)
  deriving DecidableEq, Repr

def Error.message : Error → String
  | .invalid length index =>
    s!"invalid utf-8 sequence of {length} bytes from index {index}"
  | .incomplete index => s!"incomplete utf-8 byte sequence from index {index}"

/-- The characters of pieces that begin at `index`, up to the first that is none. -/
def charsFrom (index : Nat) : List Piece → Except Error (List Char)
  | [] => .ok []
  | .char c :: rest => (charsFrom (index + c.utf8Size) rest).map (c :: ·)
  | .invalid length :: _ => .error (.invalid length index)
  | .incomplete _ :: _ => .error (.incomplete index)

/-- The text that the octets spell. -/
def decode (content : Bytes) : Except Error String :=
  (charsFrom 0 (pieces content)).map String.ofList

/-- The character of a piece; the replacement character if it is none. -/
def Piece.toChar : Piece → Char
  | .char c => c
  | _ => '\uFFFD'

/-- The text that the octets spell, with replacements where they spell none. -/
def decodeLossy (content : Bytes) : String :=
  String.ofList ((pieces content).map Piece.toChar)

end KerberosHttp.Utf8
