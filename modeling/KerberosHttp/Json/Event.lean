import KerberosHttp.Json.Token

/-!
# JSON events

A JSON text as the sequence of things it says, from front to back: an object
begins, a key, a value, and so on.  A reader that stops at the first thing it
does not like finds the same one whether it comes before or after a place where
the text stops being JSON, because the events up to that place are there.

Only a sequence that follows the grammar becomes events: `Place` is where in the
grammar a text stands.
-/

namespace KerberosHttp.Json

/-- Something a JSON text says. -/
inductive Event
  | beginObject | endObject | beginArray | endArray
  | key (units : List StringUnit)
  | string (units : List StringUnit)
  | number (text : NumberText)
  | boolean (value : Bool)
  | null
  deriving DecidableEq, Repr

/-- Something that holds values. -/
inductive Container
  | object | array
  deriving DecidableEq, Repr

/-- What the grammar allows next. -/
inductive Awaiting
  | value
  /-- A value, or the end of the array that has just begun -/
  | firstElement
  /-- A key, or the end of the object that has just begun -/
  | firstKey
  | key
  | colon
  /-- A comma, or the end of the innermost container -/
  | separator
  /-- Nothing: the value is complete -/
  | nothing
  deriving DecidableEq, Repr

/-- Where in the grammar a text stands: the containers that are open, the innermost
first, and what may come next. -/
structure Place where
  containers : List Container
  awaiting : Awaiting
  deriving DecidableEq, Repr

def Place.start : Place := ⟨[], .value⟩

/-- The place after a value inside `containers`. -/
def Place.afterValue : List Container → Place
  | [] => ⟨[], .nothing⟩
  | containers => ⟨containers, .separator⟩

/-- Begins a value with a token that can begin one. -/
def Place.beginValue (containers : List Container) : Token → Option (Place × List Event)
  | .openBrace => some (⟨.object :: containers, .firstKey⟩, [.beginObject])
  | .openBracket => some (⟨.array :: containers, .firstElement⟩, [.beginArray])
  | .string units => some (.afterValue containers, [.string units])
  | .number text => some (.afterValue containers, [.number text])
  | .boolean value => some (.afterValue containers, [.boolean value])
  | .null => some (.afterValue containers, [.null])
  | _ => none

/-- Reads one token, if the grammar allows it. -/
def Place.step : Place → Token → Option (Place × List Event)
  | ⟨_ :: outer, .firstElement⟩, .closeBracket => some (.afterValue outer, [.endArray])
  | ⟨containers, .firstElement⟩, token => Place.beginValue containers token
  | ⟨containers, .value⟩, token => Place.beginValue containers token
  | ⟨_ :: outer, .firstKey⟩, .closeBrace => some (.afterValue outer, [.endObject])
  | ⟨containers, .firstKey⟩, .string units => some (⟨containers, .colon⟩, [.key units])
  | ⟨containers, .key⟩, .string units => some (⟨containers, .colon⟩, [.key units])
  | ⟨containers, .colon⟩, .colon => some (⟨containers, .value⟩, [])
  | ⟨.object :: outer, .separator⟩, .comma => some (⟨.object :: outer, .key⟩, [])
  | ⟨.array :: outer, .separator⟩, .comma => some (⟨.array :: outer, .value⟩, [])
  | ⟨.object :: outer, .separator⟩, .closeBrace => some (.afterValue outer, [.endObject])
  | ⟨.array :: outer, .separator⟩, .closeBracket => some (.afterValue outer, [.endArray])
  | _, _ => none

/-- The events of tokens, as far as the grammar allows them. -/
def Event.ofTokens : Place → List Token → Bool → Reading Event
  | place, [], complete => ⟨[], complete && place.awaiting == .nothing⟩
  | place, token :: rest, complete =>
    match place.step token with
    | none => ⟨[], false⟩
    | some (next, events) =>
      let after := Event.ofTokens next rest complete
      ⟨events ++ after.items, after.complete⟩

def Event.read (text : String) : Reading Event :=
  let tokens := Token.readAll text
  Event.ofTokens .start tokens.items tokens.complete

/-- Whether a code unit is the first half of a pair. -/
def isHighHalf (unit : Nat) : Bool := 0xD800 ≤ unit && unit ≤ 0xDBFF

/-- Whether a code unit is the second half of a pair. -/
def isLowHalf (unit : Nat) : Bool := 0xDC00 ≤ unit && unit ≤ 0xDFFF

/-- The characters that the units of a string spell.  Two escapes that are the
halves of a pair spell one character, and a half alone spells none. -/
def StringUnit.chars? : List StringUnit → Option (List Char)
  | [] => some []
  | .char c :: rest => (chars? rest).map (c :: ·)
  | .escaped unit :: .escaped low :: rest =>
    if isHighHalf unit then
      if isLowHalf low then
        (chars? rest).map (Char.ofNat (0x10000 + (unit - 0xD800) * 0x400 + (low - 0xDC00)) :: ·)
      else none
    else if isLowHalf unit then none
    else (chars? (.escaped low :: rest)).map (Char.ofNat unit :: ·)
  | .escaped unit :: rest =>
    if isHighHalf unit || isLowHalf unit then none
    else (chars? rest).map (Char.ofNat unit :: ·)

/-- The text of a string, if its escapes spell one. -/
def StringUnit.text? (units : List StringUnit) : Option String :=
  (chars? units).map String.ofList

end KerberosHttp.Json
