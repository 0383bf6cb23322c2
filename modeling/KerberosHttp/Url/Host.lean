import KerberosHttp.Url.Percent

/-!
# Hosts

The host of an address is a name, an IPv4 address or an IPv6 address.

Under a special scheme a name is percent-decoded and brought into ASCII; when its
last label is a number it must be an IPv4 address, whose parts may be decimal,
octal or hexadecimal and whose last part fills what the others leave.  Under any
other scheme a name stays as it is.

Bringing a name into ASCII takes the tables of internationalised names, so this
step, `DomainToAscii`, is an argument of the reader.

An IPv6 address is up to eight pieces of four hexadecimal digits; one run of
zero pieces may be left out, and the last two pieces may be written as an IPv4
address.
-/

namespace KerberosHttp.Url

/-- Why a text is no address. -/
inductive ParseError
  | emptyHost
  | internationalDomain
  | port
  | ipv4
  | ipv6
  | domainCharacter
  | relative
  | tooLong
  deriving DecidableEq, Repr

def ParseError.message : ParseError → String
  | .emptyHost => "empty host"
  | .internationalDomain => "invalid international domain name"
  | .port => "invalid port number"
  | .ipv4 => "invalid IPv4 address"
  | .ipv6 => "invalid IPv6 address"
  | .domainCharacter => "invalid domain character"
  | .relative => "relative URL without a base"
  | .tooLong => "URLs more than 4 GB are not supported"

inductive Host
  | name (text : String)
  | ipv4 (address : Nat)
  | ipv6 (pieces : List Nat)
  deriving DecidableEq, Repr

/-- The parts of a text between the occurrences of a character. -/
def splitAtChar (separator : Char) : List Char → List (List Char)
  | [] => [[]]
  | c :: rest =>
    if c = separator then [] :: splitAtChar separator rest
    else
      match splitAtChar separator rest with
      | [] => [[c]]
      | part :: parts => (c :: part) :: parts

/-- The number that digits of a base spell, if they are digits of it. -/
def readNumber? (base : Nat) (digits : List Char) : Option Nat :=
  digits.foldlM (fun value digit => (Ascii.digitValue? base digit).map (value * base + ·)) 0

/-! ## IPv4 -/

/-- The value of one part of an IPv4 address.  A part that begins with `0x` is
hexadecimal and any other that begins with a zero is octal. -/
def ipv4Part? : List Char → Option Nat
  | [] => none
  | '0' :: 'x' :: digits => readNumber? 16 digits
  | '0' :: 'X' :: digits => readNumber? 16 digits
  | '0' :: d :: digits => readNumber? 8 (d :: digits)
  | digits => readNumber? 10 digits

/-- The labels of a name, without the empty one after a final dot. -/
def labels (name : List Char) : List (List Char) :=
  let parts := splitAtChar '.' name
  if 1 < parts.length ∧ parts.getLast? = some [] then parts.dropLast else parts

/-- Whether the last label of a name is a number, so that the name must be an IPv4
address. -/
def endsInNumber (name : List Char) : Bool :=
  match (labels name).getLast? with
  | none => false
  | some last => (!last.isEmpty && last.all Char.isDigit) || (ipv4Part? last).isSome

/-- The IPv4 address that a name spells.  All parts but the last are octets, and the
last fills what they leave. -/
def ipv4? (name : List Char) : Option Nat := do
  let parts ← (labels name).mapM ipv4Part?
  let last ← parts.getLast?
  let front := parts.dropLast
  let room := Nat.pow 256 (4 - front.length)
  if front.length < 4 ∧ front.all (· < 256) ∧ last < room then
    return front.foldl (fun value part => value * 256 + part) 0 * room + last
  else none

/-- The four decimal parts of an IPv4 address. -/
def ipv4Text (address : Nat) : List Char :=
  let part (index : Nat) := (toString (address / Nat.pow 256 index % 256)).toList
  part 3 ++ '.' :: part 2 ++ '.' :: part 1 ++ '.' :: part 0

/-! ## IPv6 -/

/-- A number from 0 to 255 in decimal without leading zeros. -/
def decimalOctet? (digits : List Char) : Option Nat := do
  let value ← readNumber? 10 digits
  if digits ≠ [] ∧ value < 256 ∧ (digits.head? ≠ some '0' ∨ digits.length = 1) then some value
  else none

/-- The pieces that one group between colons stands for: one, or two if it is an
IPv4 address, which only the last group may be. -/
def ipv6Group? (isLast : Bool) (group : List Char) : Option (List Nat) :=
  if isLast ∧ group.contains '.' then
    match (splitAtChar '.' group).mapM decimalOctet? with
    | some [a, b, c, d] => some [a * 256 + b, c * 256 + d]
    | _ => none
  else if group ≠ [] ∧ group.length ≤ 4 then (readNumber? 16 group).map ([·])
  else none

/-- The pieces of consecutive groups. -/
def ipv6Groups? (endsAddress : Bool) : List (List Char) → Option (List Nat)
  | [] => some []
  | group :: rest => do
    let first ← ipv6Group? (endsAddress && rest.isEmpty) group
    let others ← ipv6Groups? endsAddress rest
    return first ++ others

/-- The groups of an address, with a single empty one where zeros are left out.  At
either end of the text the gap shows as two empty groups. -/
def ipv6GapGroups? (text : List Char) : Option (List (List Char)) := do
  let groups := splitAtChar ':' text
  let groups ←
    match groups with
    | [] :: [] :: rest => some ([] :: rest)
    | [] :: _ => none
    | groups => some groups
  match groups.reverse with
  | [] :: [] :: rest => some ([] :: rest).reverse
  | [] :: _ => none
  | _ => some groups

/-- The eight pieces that a text spells. -/
def ipv6? (text : List Char) : Option (List Nat) := do
  let groups ← ipv6GapGroups? text
  let before := groups.takeWhile (· ≠ [])
  match groups.drop before.length with
  | [] =>
    let pieces ← ipv6Groups? true before
    if pieces.length = 8 then some pieces else none
  | _ :: after =>
    let left ← ipv6Groups? false before
    let right ← ipv6Groups? true after
    if left.length + right.length < 8 then
      some (left ++ List.replicate (8 - left.length - right.length) 0 ++ right)
    else none

/-- The length of the run of zeros at the front. -/
def zeroRun (pieces : List Nat) : Nat := (pieces.takeWhile (· = 0)).length

/-- Where the longest run of at least two zeros begins, and how long it is.  Of runs
of one length the first counts. -/
def longestZeroRun (pieces : List Nat) : Option (Nat × Nat) :=
  (List.range pieces.length).foldl
    (fun best start =>
      let length := zeroRun (pieces.drop start)
      if length < 2 then best
      else
        match best with
        | some (_, longest) => if longest < length then some (start, length) else best
        | none => some (start, length))
    none

/-- Pieces in hexadecimal with colons between them. -/
def ipv6Pieces (pieces : List Nat) : List Char :=
  (String.intercalate ":" (pieces.map Ascii.hex)).toList

/-- An IPv6 address with its longest run of zeros left out. -/
def ipv6Text (pieces : List Nat) : List Char :=
  match longestZeroRun pieces with
  | none => ipv6Pieces pieces
  | some (start, length) =>
    ipv6Pieces (pieces.take start) ++ ':' :: ':' :: ipv6Pieces (pieces.drop (start + length))

/-! ## Names -/

/-- Whether a character must not stand in any host. -/
def isForbiddenInHost (c : Char) : Bool :=
  c.toNat = 0 || "\t\n\r #/:<>?@[\\]^|".toList.contains c

/-- What brings a name under a special scheme into ASCII, given its octets.  Labels outside
ASCII are mapped and encoded, labels that are encoded already are checked, letters become
small, and a name with a forbidden character, or that is not valid, has no result. -/
abbrev DomainToAscii := Bytes → Option (List Char)

/-- The address in brackets, if the text begins with one. -/
def bracketed? : List Char → Option (Except ParseError Host)
  | '[' :: rest =>
    some <|
      match rest.getLast?, ipv6? rest.dropLast with
      | some ']', some pieces => .ok (.ipv6 pieces)
      | _, _ => .error .ipv6
  | _ => none

/-- Reads the host of an address under a special scheme. -/
def Host.readSpecial (toAscii? : DomainToAscii) (text : List Char) : Except ParseError Host :=
  match bracketed? text with
  | some result => result
  | none =>
    match toAscii? (percentDecode text) with
    | none => .error .internationalDomain
    | some domain =>
      if domain = [] then .error .emptyHost
      else if endsInNumber domain then
        match ipv4? domain with
        | some address => .ok (.ipv4 address)
        | none => .error .ipv4
      else .ok (.name (String.ofList domain))

/-- Reads the host of an address under any other scheme. -/
def Host.readOther (text : List Char) : Except ParseError Host :=
  match bracketed? text with
  | some result => result
  | none =>
    if text.any isForbiddenInHost then .error .domainCharacter
    else .ok (.name (String.ofList (percentEncode .controls text)))

def Host.render : Host → List Char
  | .name text => text.toList
  | .ipv4 address => ipv4Text address
  | .ipv6 pieces => '[' :: ipv6Text pieces ++ [']']

end KerberosHttp.Url
