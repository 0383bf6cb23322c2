import KerberosHttp.Xml.Error

/-!
# XML tokens

The markup of a text, found octet by octet: tags, comments, character data
sections, instructions, and the characters between them.  What a token holds is
not looked at yet; names and attributes may be anything.

`Reading` is what the reader is in the middle of, and `Reading.feed` reads one
octet.  Reading never looks ahead, so reading the two halves of a text one after
the other is reading the text (`feedAll_append`).

## Where constructs end

* A tag ends at the first `>` outside quotes.
* A comment ends at the first `-->`, and a character data section at the first `]]>`.
* A declaration of a document type ends at the `>` for which no `<` is left open.
* An instruction ends at the first `?>`.
-/

namespace KerberosHttp.Xml

/-- A piece of markup, or the characters between two. -/
inductive Token
  | text (content : Bytes)
  | cdata (content : Bytes)
  | comment (content : Bytes)
  | instruction (content : Bytes)
  | doctype (content : Bytes)
  | startTag (content : Bytes)
  | emptyTag (content : Bytes)
  | endTag (content : Bytes)
  deriving DecidableEq, Repr

/-- What the reader is in the middle of.  The octets it has seen of it come last
one first. -/
inductive Reading
  /-- Characters between markup -/
  | text (seen : Bytes)
  /-- Markup of which only `<` was read -/
  | opened
  /-- A tag; the quote is the one that is open -/
  | tag (closing : Bool) (quote : Option UInt8) (seen : Bytes)
  /-- A declaration of which only `<!` was read -/
  | declaration
  /-- A comment, after `<!` -/
  | comment (seen : Bytes)
  /-- A character data section, after `<!` -/
  | cdata (seen : Bytes)
  /-- A document type, after `<!`, with the number of `<` in it that are open -/
  | doctype (depth : Nat) (seen : Bytes)
  /-- An instruction, after `<?` -/
  | instruction (seen : Bytes)
  /-- Nothing: the text is no XML -/
  | failed (error : Error)
  deriving DecidableEq, Repr

/-- The white space of markup. -/
def isSpace (octet : UInt8) : Bool :=
  octet == ' '.toUInt8 || octet == '\t'.toUInt8 || octet == '\r'.toUInt8 || octet == '\n'.toUInt8

/-! ## The ends of constructs -/

/-- The token of a tag.  A slash at its end makes a tag empty. -/
def Token.ofTag (closing : Bool) (seen : Bytes) : Token :=
  if closing then .endTag seen.reverse
  else
    match seen with
    | [] => .startTag []
    | last :: before =>
      if last = '/'.toUInt8 then .emptyTag before.reverse else .startTag seen.reverse

/-- The comment that ends here, if one does: two hyphens have just been read, and they
are not those of its beginning. -/
def Token.ofComment? (seen : Bytes) : Option (Except Error Token) :=
  match seen with
  | last :: before :: content =>
    if last = '-'.toUInt8 ∧ before = '-'.toUInt8 ∧ 2 ≤ content.length then
      match (Bytes.ofAscii "--").dropStart? content.reverse with
      | some content => some (.ok (.comment content))
      | none => some (.error (.markup .unclosedComment))
    else none
  | _ => none

/-- The character data section that ends here, if one does. -/
def Token.ofCData? (seen : Bytes) : Option (Except Error Token) :=
  match seen with
  | last :: before :: content =>
    if last = ']'.toUInt8 ∧ before = ']'.toUInt8 then
      match (Bytes.ofAscii "[CDATA[").dropStart? content.reverse with
      | some content => some (.ok (.cdata content))
      | none => some (.error (.markup .unclosedCData))
    else none
  | _ => none

/-- The declaration of a document type, which ends here. -/
def Token.ofDoctype (seen : Bytes) : Except Error Token :=
  let content := seen.reverse
  let word := Bytes.ofAscii "DOCTYPE"
  if (content.take word.length).map Ascii.lowerOctet = word.map Ascii.lowerOctet then
    let rest := content.drop word.length
    if rest.all isSpace then .error (.nesting .missingDoctypeName) else .ok (.doctype rest)
  else .error (.markup .unclosedDoctype)

/-- The instruction that ends here, if one does. -/
def Token.ofInstruction? (seen : Bytes) : Option (Except Error Token) :=
  match seen with
  | [] => some (.error (.markup .unclosedInstruction))
  | last :: content =>
    if last = '?'.toUInt8 then some (.ok (.instruction content.reverse)) else none

/-! ## Reading one octet -/

/-- The state after a construct has ended. -/
def Reading.afterToken : Except Error Token → Reading × Option Token
  | .ok token => (.text [], some token)
  | .error error => (.failed error, none)

def Reading.feedTag (closing : Bool) (quote : Option UInt8) (seen : Bytes) (octet : UInt8) :
    Reading × Option Token :=
  match quote with
  | some mark =>
    (.tag closing (if octet = mark then none else some mark) (octet :: seen), none)
  | none =>
    if octet = '>'.toUInt8 then (.text [], some (.ofTag closing seen))
    else if octet = '"'.toUInt8 ∨ octet = '\''.toUInt8 then
      (.tag closing (some octet) (octet :: seen), none)
    else (.tag closing none (octet :: seen), none)

/-- Reads one octet: the state after it, and the token it completes. -/
def Reading.feed : Reading → UInt8 → Reading × Option Token
  | .text seen, octet =>
    if octet = '<'.toUInt8 then
      (.opened, if seen.isEmpty then none else some (.text seen.reverse))
    else (.text (octet :: seen), none)
  | .opened, octet =>
    if octet = '!'.toUInt8 then (.declaration, none)
    else if octet = '?'.toUInt8 then (.instruction [], none)
    else if octet = '/'.toUInt8 then (.tag true none [], none)
    else feedTag false none [] octet
  | .tag closing quote seen, octet => feedTag closing quote seen octet
  | .declaration, octet =>
    if octet = '['.toUInt8 then (.cdata [octet], none)
    else if octet = '-'.toUInt8 then (.comment [octet], none)
    else if octet = 'D'.toUInt8 ∨ octet = 'd'.toUInt8 then (.doctype 0 [octet], none)
    else (.failed (.markup .unknownDeclaration), none)
  | .comment seen, octet =>
    if octet = '>'.toUInt8 then
      ((Token.ofComment? seen).map afterToken).getD (.comment (octet :: seen), none)
    else (.comment (octet :: seen), none)
  | .cdata seen, octet =>
    if octet = '>'.toUInt8 then
      ((Token.ofCData? seen).map afterToken).getD (.cdata (octet :: seen), none)
    else (.cdata (octet :: seen), none)
  | .doctype depth seen, octet =>
    if octet = '<'.toUInt8 then (.doctype (depth + 1) (octet :: seen), none)
    else if octet = '>'.toUInt8 then
      match depth with
      | 0 => afterToken (Token.ofDoctype seen)
      | depth + 1 => (.doctype depth (octet :: seen), none)
    else (.doctype depth (octet :: seen), none)
  | .instruction seen, octet =>
    if octet = '>'.toUInt8 then
      ((Token.ofInstruction? seen).map afterToken).getD (.instruction (octet :: seen), none)
    else (.instruction (octet :: seen), none)
  | .failed error, _ => (.failed error, none)

/-! ## Reading a text -/

/-- Reads octets: the tokens they complete, and the state after them. -/
def Reading.feedAll : Reading → Bytes → List Token × Reading
  | state, [] => ([], state)
  | state, octet :: rest =>
    let (next, token) := state.feed octet
    let (tokens, last) := feedAll next rest
    (token.toList ++ tokens, last)

/-- The end of the input: the characters that end there, or why it may not end there. -/
def Reading.finish : Reading → Except Error (Option Token)
  | .text [] => .ok none
  | .text seen => .ok (some (.text seen.reverse))
  | .opened => .error (.markup .unclosedTag)
  | .tag _ _ _ => .error (.markup .unclosedTag)
  | .declaration => .error (.markup .unknownDeclaration)
  | .comment _ => .error (.markup .unclosedComment)
  | .cdata _ => .error (.markup .unclosedCData)
  | .doctype _ _ => .error (.markup .unclosedDoctype)
  | .instruction _ => .error (.markup .unclosedInstruction)
  | .failed error => .error error

/-- The mark that may stand at the very beginning of a text in UTF-8. -/
def byteOrderMark : Bytes := [0xEF, 0xBB, 0xBF]

/-- A text without the mark at its beginning. -/
def skipMark (content : Bytes) : Bytes :=
  (byteOrderMark.dropStart? content).getD content

/-- The tokens of a text, and why there are no more, if the text does not end well. -/
def readTokens (content : Bytes) : List Token × Option Error :=
  let (tokens, state) := Reading.feedAll (.text []) (skipMark content)
  match state.finish with
  | .ok last => (tokens ++ last.toList, none)
  | .error error => (tokens, some error)

theorem Reading.feedAll_append (state : Reading) (first second : Bytes) :
    state.feedAll (first ++ second) =
      ((state.feedAll first).1 ++ ((state.feedAll first).2.feedAll second).1,
        ((state.feedAll first).2.feedAll second).2) := by
  induction first generalizing state with
  | nil => rfl
  | cons octet rest ih => simp [feedAll, ih]

end KerberosHttp.Xml
