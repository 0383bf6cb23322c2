import KerberosHttp.Url.Basic

/-!
# Reading addresses

`Url.readAbsolute` reads an absolute address.  Blanks and controls around it are
left out, and so are breaks, which are tabs and line ends, anywhere in it.  What
brings a name into ASCII is an argument throughout.

The scheme decides how the rest is read.  Under `http` and its like any number of
slashes, of either kind, may stand before the host, and there must be a host;
`file` may have an empty one; under any other scheme the host, if two slashes
announce it, is kept as it is written.

A path is read segment by segment.  A segment of one dot is dropped and one of
two dots takes back the segment before it, unless that could be the letter of a
drive.

The letter of a drive in front of a file's path stands in place of a host, and
its second character becomes a colon.  Nothing may be in front of it but dots that
came to nothing: where the host is left empty, the slash after it leaves an empty
segment in front.  A break right after such a letter and its colon counts as a
slash.
-/

namespace KerberosHttp.Url

/-- A path, a query and a fragment are what is left of a text. -/
abbrev Rest := List Char

/-- Whether a character is a tab or a line end. -/
def isBreak (c : Char) : Bool := c = '\t' || c = '\n' || c = '\r'

/-- A text without its breaks. -/
def dropBreaks (text : List Char) : List Char := text.filter fun c => !isBreak c

/-- Whether a character ends the host part: a slash, a question mark, a number sign,
and under special schemes a backslash. -/
def endsAuthority (kind : SchemeKind) (c : Char) : Bool :=
  c = '/' || c = '?' || c = '#' || (kind.isSpecial && c = '\\')

/-- Whether a character is read as a slash. -/
def isSlash (kind : SchemeKind) (c : Char) : Bool :=
  c = '/' || (kind.isSpecial && c = '\\')

/-! ## Scheme -/

/-- Whether a character may stand in a scheme. -/
def isSchemeChar (c : Char) : Bool :=
  c.isAlphanum || c = '+' || c = '-' || c = '.'

/-- The scheme in lower case and what follows its colon. -/
def readScheme? (text : List Char) : Option (String × Rest) :=
  match text.head?, text.dropWhile isSchemeChar with
  | some first, ':' :: rest =>
    if first.isAlpha then
      some (String.ofList ((text.takeWhile isSchemeChar).map Char.toLower), rest)
    else none
  | _, _ => none

/-! ## User, host and port -/

/-- A text cut at the last occurrence of a character. -/
def cutAtLast (separator : Char) (text : List Char) : Option (List Char × List Char) :=
  if text.contains separator then
    let after := text.reverse.takeWhile (· ≠ separator)
    some ((text.reverse.drop (after.length + 1)).reverse, after.reverse)
  else none

/-- The user name and the password that stand before the sign. -/
def readUser (text : List Char) : String × Option String :=
  let username := text.takeWhile (· ≠ ':')
  let password := text.drop (username.length + 1)
  let encode (part : List Char) := String.ofList (percentEncode .userinfo part)
  (encode username, if password = [] then none else some (encode password))

/-- A host part: what stands before the sign, if the sign is there, and the rest. -/
def splitUser (kind : SchemeKind) (text : Rest) : Except ParseError (Option (List Char) × Rest) :=
  let part := text.takeWhile fun c => !endsAuthority kind c
  match cutAtLast '@' part with
  | none => .ok (none, text)
  | some (user, host) =>
    let rest := host ++ text.drop part.length
    if user = [] ∧ rest ≠ [] ∧ host = [] then .error .emptyHost
    else .ok (some user, rest)

/-- How many characters the host takes: up to a colon outside brackets or the end of
the host part. -/
def hostLength (kind : SchemeKind) (bracketed : Bool) : Rest → Nat
  | [] => 0
  | c :: rest =>
    if endsAuthority kind c || (c = ':' && !bracketed) then 0
    else hostLength kind (if c = '[' then true else if c = ']' then false else bracketed) rest + 1

/-- The port, if it is named and not the default, and the rest. -/
def readPort (kind : SchemeKind) (scheme : String) (text : Rest) :
    Except ParseError (Option Nat × Rest) :=
  let digits := text.takeWhile Char.isDigit
  let rest := text.drop digits.length
  let value := (readNumber? 10 digits).getD 0
  if 65535 < value then .error .port
  else if rest.head?.any fun c => !(endsAuthority kind c || c = '\\') then .error .port
  else if digits = [] ∨ defaultPort? scheme = some value then .ok (none, rest)
  else .ok (some value, rest)

/-- Reads the authority of a scheme other than `file`. -/
def readAuthority (toAscii? : DomainToAscii) (kind : SchemeKind) (scheme : String)
    (text : Rest) : Except ParseError (Authority × Rest) := do
  let (user, text) ← splitUser kind text
  let (username, password) := readUser (user.getD [])
  let length := hostLength kind false text
  if kind = .web ∧ length = 0 then throw .emptyHost
  let host ←
    if kind.isSpecial then Host.readSpecial toAscii? (text.take length)
    else Host.readOther (text.take length)
  let rest := text.drop length
  if host = .name "" ∧ (rest.head? = some ':' ∨ username ≠ "" ∨ password ≠ none) then
    throw .emptyHost
  let (port, rest) ←
    match rest with
    | ':' :: rest => readPort kind scheme rest
    | rest => .ok (none, rest)
  return ({ username, password, host, port }, rest)

/-! ## Path -/

/-- Whether a segment is a single dot, encoded or not. -/
def isSingleDot (segment : List Char) : Bool :=
  let segment := String.ofList (segment.map Char.toLower)
  segment = "." || segment = "%2e"

/-- Whether a segment is two dots, encoded or not. -/
def isDoubleDot (segment : List Char) : Bool :=
  let segment := String.ofList (segment.map Char.toLower)
  segment = ".." || segment = ".%2e" || segment = "%2e." || segment = "%2e%2e"

/-- Whether a text is the letter of a drive: a letter and a colon or a bar. -/
def isDriveLetter : List Char → Bool
  | [letter, sign] => letter.isAlpha && (sign = ':' || sign = '|')
  | _ => false

/-- Whether a segment that was read could be the letter of a drive. -/
def mayBeDrive (segment : List Char) : Bool :=
  isDriveLetter (segment.take 2) && (segment.length = 2 || segment[2]? = some '\\')

/-- A segment cut after the letter of a drive and its colon, if a break stands there
and more text after it. -/
def cutAtBreak? (segment : List Char) : Option (List Char × List Char) :=
  match dropBreaks segment with
  | letter :: ':' :: c :: rest =>
    if letter.isAlpha ∧ ((segment.dropWhile (· ≠ ':')).drop 1).head?.any isBreak then
      some ([letter, ':'], c :: rest)
    else none
  | _ => none

structure PathState where
  /-- The segments that are complete, the last one first -/
  done : List (List Char)
  /-- Whether a drive letter was read, so that the address has no host -/
  onDrive : Bool

/-- The segments after one of two dots: the one before it is taken back. -/
def PathState.takeBack (state : PathState) : PathState :=
  match state.done with
  | [] => state
  | segment :: before => if mayBeDrive segment then state else { state with done := before }

/-- The state after a further segment as it is to be written. -/
def PathState.push (state : PathState) (segment : List Char) : PathState :=
  { state with done := segment :: state.done }

/-- The state after dots.  At the end of the path they leave an empty segment. -/
def PathState.close (state : PathState) (atEnd : Bool) : PathState :=
  if atEnd then state.push [] else state

/-- Whether the next segment of a path may be the letter of a drive. -/
def PathState.awaitsDrive (kind : SchemeKind) (state : PathState) : Bool :=
  kind = .file && state.done.isEmpty

/-- The state after a segment without breaks. -/
def PathState.add (kind : SchemeKind) (state : PathState) (segment : List Char) (atEnd : Bool) :
    PathState :=
  if isDoubleDot segment then state.takeBack.close atEnd
  else if isSingleDot segment then state.close atEnd
  else if state.awaitsDrive kind && isDriveLetter segment then
    { done := [segment.take 1 ++ [':']], onDrive := true }
  else state.push (percentEncode .path segment)

/-- The state after a segment, in which breaks may stand.  What a break cuts off from
the letter of a drive is an ordinary segment, dots or not, and the letter is one too:
it takes no host away. -/
def PathState.step (kind : SchemeKind) (state : PathState) (segment : List Char) (atEnd : Bool) :
    PathState :=
  match if state.awaitsDrive kind then cutAtBreak? segment else none with
  | some (drive, more) => (state.push drive).push (percentEncode .path more)
  | none => state.add kind (dropBreaks segment) atEnd

/-- The state after segments of which the last has no slash after it. -/
def PathState.read (kind : SchemeKind) (state : PathState) : List (List Char) → PathState
  | [] => state
  | segment :: rest => PathState.read kind (state.step kind segment rest.isEmpty) rest

def splitSegments (kind : SchemeKind) (text : List Char) : List (List Char) :=
  splitAtChar '/' (text.map fun c => if isSlash kind c then '/' else c)

def endsPath (c : Char) : Bool := c = '?' || c = '#'

/-- Reads a path after its first slash: the segments, and whether a drive letter takes
the host's place.  A file's path has no empty segments at its front. -/
def readSegments (kind : SchemeKind) (text : List Char) : List String × Bool :=
  let state := PathState.read kind ⟨[], false⟩ (splitSegments kind text)
  let parts := state.done.reverse
  let parts :=
    if kind = .file then
      match parts.dropWhile List.isEmpty with
      | [] => [[]]
      | parts => parts
    else parts
  (parts.map String.ofList, state.onDrive)

/-- The path part of a text after an authority, without its first slash; none if it
is empty and may be. -/
def pathText? (kind : SchemeKind) (text : Rest) : Option (List Char) :=
  match text.takeWhile fun c => !endsPath c with
  | [] => if kind.isSpecial then some [] else none
  | c :: rest => if isSlash kind c then some rest else some (c :: rest)

/-! ## Query and fragment -/

/-- The query and the fragment at the end of an address. -/
def readEnd (kind : SchemeKind) (text : Rest) : Option String × Option String :=
  let text := text.dropWhile fun c => !endsPath c
  let encode (set : EncodeSet) (part : List Char) := String.ofList (percentEncode set part)
  let fragment :=
    match text.dropWhile (· ≠ '#') with
    | [] => none
    | _ :: rest => some (encode .fragment rest)
  match text.takeWhile (· ≠ '#') with
  | '?' :: query =>
    (some (encode (if kind.isSpecial then .specialQuery else .query) query), fragment)
  | _ => (none, fragment)

/-! ## The whole address -/

/-- What follows a slash, with breaks before it or not, if a text begins with one. -/
def afterFileSlash? (text : Rest) : Option Rest :=
  match text.dropWhile isBreak with
  | c :: rest => if isSlash .file c then some rest else none
  | [] => none

/-- Reads the host of a file, which a drive letter is not, and what is left for the
path.  The slash after a host belongs to neither; with no host, the one it would
follow is part of the path. -/
def readFileHost (toAscii? : DomainToAscii) (text : Rest) : Except ParseError (Host × Rest) :=
  let part := text.takeWhile fun c => !endsAuthority .file c
  let rest := text.drop part.length
  let name := dropBreaks part
  if isDriveLetter name then .ok (.name "", text)
  else if name = [] then .ok (.name "", rest)
  else do
    let host ← Host.readSpecial toAscii? name
    if host = .name "localhost" then return (.name "", rest)
    else return (host, (afterFileSlash? rest).getD rest)

/-- Reads an address of a file after its colon.  Breaks may stand in it. -/
def readFile (toAscii? : DomainToAscii) (text : Rest) : Except ParseError Url := do
  let (host, rest) ←
    match afterFileSlash? text with
    | none => .ok (.name "", text)
    | some rest =>
      match afterFileSlash? rest with
      | none => .ok (.name "", rest)
      | some rest => readFileHost toAscii? rest
  let (parts, onDrive) := readSegments .file (rest.takeWhile fun c => !endsPath c)
  let (query, fragment) := readEnd .file (dropBreaks rest)
  return { scheme := "file"
           authority := some ⟨"", none, if onDrive then .name "" else host, none⟩
           path := .segments parts, query, fragment }

/-- Reads an address with an authority, after the slashes. -/
def readWithAuthority (toAscii? : DomainToAscii) (kind : SchemeKind) (scheme : String)
    (text : Rest) : Except ParseError Url := do
  let (authority, rest) ← readAuthority toAscii? kind scheme text
  let parts := (pathText? kind rest).map fun path => (readSegments kind path).1
  let (query, fragment) := readEnd kind rest
  return { scheme, authority := some authority, path := .segments (parts.getD []), query,
           fragment }

/-- Reads an address without an authority, after its colon. -/
def readWithoutAuthority (scheme : String) (text : Rest) : Url :=
  let (query, fragment) := readEnd .other text
  let path :=
    match text.takeWhile fun c => !endsPath c with
    | '/' :: path => Path.segments (readSegments .other path).1
    | path => Path.bare (String.ofList (percentEncode .controls path))
  { scheme, authority := none, path, query, fragment }

/-- Whether a character is left out at both ends of an address. -/
def isOuterBlank (c : Char) : Bool := c.toNat ≤ 32

/-- An address without the blanks and controls around it. -/
def trim (text : List Char) : List Char :=
  ((text.dropWhile isOuterBlank).reverse.dropWhile isOuterBlank).reverse

/-- Reads an absolute address.  Only in a file's path does a break count. -/
def readAbsolute (toAscii? : DomainToAscii) (text : String) : Except ParseError Url :=
  let text := trim text.toList
  match readScheme? (dropBreaks text) with
  | none => .error .relative
  | some (scheme, rest) =>
    match SchemeKind.ofScheme scheme with
    | .file => readFile toAscii? ((text.dropWhile (· ≠ ':')).drop 1)
    | .web => readWithAuthority toAscii? .web scheme (rest.dropWhile (isSlash .web))
    | .other =>
      match rest with
      | '/' :: '/' :: rest => readWithAuthority toAscii? .other scheme rest
      | rest => .ok (readWithoutAuthority scheme rest)

end KerberosHttp.Url
