import KerberosHttp.Json.Event

/-!
# JSON values

A JSON text writes a value.  Here is the value as a tree, with the tokens that write it and the
events that it consists of.

## Strategy

An array or an object begins where any value may (`Admits`), and so does its first element; after
that the text stands at a separator again and again, until the container closes.  So what the
tokens of a value say is an induction on the tree, and within one container an induction on what
it holds (`ofTokens_elements`, `ofTokens_members`), which takes for granted what is known of the
values inside (`Says`).

## Main statement

* `Value.tokens_say`: the tokens of a value say its events, wherever a value may begin.
-/

namespace KerberosHttp.Json

/-- A JSON value as it is written: strings by their units and numbers by their digits. -/
inductive Value
  | string (units : List StringUnit)
  | number (text : NumberText)
  | boolean (value : Bool)
  | null
  | array (elements : List Value)
  | object (members : List (List StringUnit × Value))

/-- The members of an object in their order: names and values. -/
abbrev Members := List (List StringUnit × Value)

/-- A reading with something before it. -/
def Reading.behind {α : Type} (items : List α) (reading : Reading α) : Reading α :=
  ⟨items ++ reading.items, reading.complete⟩

theorem Reading.behind_behind {α : Type} (first second : List α) (reading : Reading α) :
    (reading.behind second).behind first = reading.behind (first ++ second) := by
  simp only [behind, List.append_assoc]

namespace Value

/-- What holds of a value as soon as it holds of its parts holds of every value. -/
theorem induct {motive : Value → Prop} (string : ∀ units, motive (string units))
    (number : ∀ text, motive (number text)) (boolean : ∀ value, motive (boolean value))
    (null : motive null)
    (array : ∀ elements : List Value, (∀ element ∈ elements, motive element) →
      motive (array elements))
    (object : ∀ members : Members, (∀ member ∈ members, motive member.2) →
      motive (object members)) (value : Value) : motive value := by
  refine Value.rec (motive_1 := motive)
    (motive_2 := fun elements => ∀ element ∈ elements, motive element)
    (motive_3 := fun members => ∀ member ∈ members, motive member.2)
    (motive_4 := fun member => motive member.2) string number boolean null array object
    ?_ ?_ ?_ ?_ ?_ value
  · exact List.forall_mem_nil _
  · exact fun element rest helement hrest => List.forall_mem_cons.mpr ⟨helement, hrest⟩
  · exact List.forall_mem_nil _
  · exact fun member rest hmember hrest => List.forall_mem_cons.mpr ⟨hmember, hrest⟩
  · exact fun units value hvalue => hvalue

/-! ## Tokens and events -/

mutual

/-- The tokens that write a value.  The comma before the first part of a container is left
out. -/
def tokens : Value → List Token
  | string units => [.string units]
  | number text => [.number text]
  | boolean value => [.boolean value]
  | null => [.null]
  | array elements => .openBracket :: ((elementTokens elements).tail ++ [.closeBracket])
  | object members => .openBrace :: ((memberTokens members).tail ++ [.closeBrace])

/-- The tokens of elements, each after a comma. -/
def elementTokens : List Value → List Token
  | [] => []
  | element :: rest => .comma :: (element.tokens ++ elementTokens rest)

/-- The tokens of members, each after a comma. -/
def memberTokens : Members → List Token
  | [] => []
  | (name, value) :: rest => .comma :: .string name :: .colon :: (value.tokens ++ memberTokens rest)

end

mutual

/-- What a value says. -/
def events : Value → List Event
  | string units => [.string units]
  | number text => [.number text]
  | boolean value => [.boolean value]
  | null => [.null]
  | array elements => .beginArray :: (elementEvents elements ++ [.endArray])
  | object members => .beginObject :: (memberEvents members ++ [.endObject])

def elementEvents : List Value → List Event
  | [] => []
  | element :: rest => element.events ++ elementEvents rest

def memberEvents : Members → List Event
  | [] => []
  | (name, value) :: rest => .key name :: (value.events ++ memberEvents rest)

end

/-! ## What tokens say -/

theorem ofTokens_cons {place next : Place} {token : Token} {events : List Event}
    (hstep : place.step token = some (next, events)) (rest : List Token) (complete : Bool) :
    Event.ofTokens place (token :: rest) complete =
      (Event.ofTokens next rest complete).behind events := by
  simp only [Event.ofTokens, hstep, Reading.behind]

theorem afterValue_cons (container : Container) (outer : List Container) :
    Place.afterValue (container :: outer) = ⟨container :: outer, .separator⟩ :=
  rfl

/-- Any value may begin at a place. -/
def Admits (place : Place) (containers : List Container) : Prop :=
  ∀ token, token ≠ .closeBracket → place.step token = Place.beginValue containers token

theorem admits_value (containers : List Container) : Admits ⟨containers, .value⟩ containers := by
  intro token htoken
  cases containers <;> cases token <;> rfl

/-- The bracket that may close an array where its first element is awaited begins no value. -/
theorem admits_firstElement (containers : List Container) :
    Admits ⟨.array :: containers, .firstElement⟩ (.array :: containers) := by
  intro token htoken
  cases token with
  | closeBracket => exact absurd rfl htoken
  | _ => rfl

/-- The tokens of a value say its events, wherever a value may begin. -/
def Says (value : Value) : Prop :=
  ∀ {place : Place} {containers : List Container}, Admits place containers →
    ∀ (rest : List Token) (complete : Bool),
      Event.ofTokens place (value.tokens ++ rest) complete =
        (Event.ofTokens (.afterValue containers) rest complete).behind value.events

section Containers

variable {outer : List Container} (rest : List Token) (complete : Bool)

theorem ofTokens_elements {elements : List Value} (hsaid : ∀ element ∈ elements, Says element) :
    Event.ofTokens ⟨.array :: outer, .separator⟩ (elementTokens elements ++ rest) complete =
      (Event.ofTokens ⟨.array :: outer, .separator⟩ rest complete).behind
        (elementEvents elements) := by
  induction elements with
  | nil => rfl
  | cons element others ih =>
      obtain ⟨helement, hothers⟩ := List.forall_mem_cons.mp hsaid
      have hcomma : Place.step ⟨.array :: outer, .separator⟩ .comma =
          some (⟨.array :: outer, .value⟩, []) := rfl
      rw [elementTokens, List.cons_append, List.append_assoc, ofTokens_cons hcomma,
        helement (admits_value _), afterValue_cons, ih hothers]
      simp only [Reading.behind_behind, elementEvents, List.nil_append]

theorem ofTokens_members {members : Members} (hsaid : ∀ member ∈ members, Says member.2) :
    Event.ofTokens ⟨.object :: outer, .separator⟩ (memberTokens members ++ rest) complete =
      (Event.ofTokens ⟨.object :: outer, .separator⟩ rest complete).behind
        (memberEvents members) := by
  induction members with
  | nil => rfl
  | cons member others ih =>
      obtain ⟨name, value⟩ := member
      obtain ⟨hvalue, hothers⟩ := List.forall_mem_cons.mp hsaid
      have hcomma : Place.step ⟨.object :: outer, .separator⟩ .comma =
          some (⟨.object :: outer, .key⟩, []) := rfl
      have hname : Place.step ⟨.object :: outer, .key⟩ (.string name) =
          some (⟨.object :: outer, .colon⟩, [.key name]) := rfl
      have hcolon : Place.step ⟨.object :: outer, .colon⟩ .colon =
          some (⟨.object :: outer, .value⟩, []) := rfl
      rw [memberTokens, List.cons_append, List.cons_append, List.cons_append, List.append_assoc,
        ofTokens_cons hcomma, ofTokens_cons hname, ofTokens_cons hcolon, hvalue (admits_value _),
        afterValue_cons, ih hothers]
      simp only [Reading.behind_behind, memberEvents, List.nil_append, List.singleton_append]

/-- Where the first element of an array may begin, the elements and the end of the array
follow. -/
theorem ofTokens_array {elements : List Value} (hsaid : ∀ element ∈ elements, Says element) :
    Event.ofTokens ⟨.array :: outer, .firstElement⟩
        ((elementTokens elements).tail ++ .closeBracket :: rest) complete =
      (Event.ofTokens (.afterValue outer) rest complete).behind
        (elementEvents elements ++ [.endArray]) := by
  cases elements with
  | nil => exact ofTokens_cons rfl rest complete
  | cons element others =>
      obtain ⟨helement, hothers⟩ := List.forall_mem_cons.mp hsaid
      have hclose : Place.step ⟨.array :: outer, .separator⟩ .closeBracket =
          some (.afterValue outer, [.endArray]) := rfl
      rw [elementTokens, List.tail_cons, List.append_assoc,
        helement (admits_firstElement outer), afterValue_cons, ofTokens_elements _ _ hothers,
        ofTokens_cons hclose]
      simp only [Reading.behind_behind, elementEvents, List.append_assoc]

theorem ofTokens_object {members : Members} (hsaid : ∀ member ∈ members, Says member.2) :
    Event.ofTokens ⟨.object :: outer, .firstKey⟩
        ((memberTokens members).tail ++ .closeBrace :: rest) complete =
      (Event.ofTokens (.afterValue outer) rest complete).behind
        (memberEvents members ++ [.endObject]) := by
  cases members with
  | nil => exact ofTokens_cons rfl rest complete
  | cons member others =>
      obtain ⟨name, value⟩ := member
      obtain ⟨hvalue, hothers⟩ := List.forall_mem_cons.mp hsaid
      have hname : Place.step ⟨.object :: outer, .firstKey⟩ (.string name) =
          some (⟨.object :: outer, .colon⟩, [.key name]) := rfl
      have hcolon : Place.step ⟨.object :: outer, .colon⟩ .colon =
          some (⟨.object :: outer, .value⟩, []) := rfl
      have hclose : Place.step ⟨.object :: outer, .separator⟩ .closeBrace =
          some (.afterValue outer, [.endObject]) := rfl
      rw [memberTokens, List.tail_cons, List.cons_append, List.cons_append, List.append_assoc,
        ofTokens_cons hname, ofTokens_cons hcolon, hvalue (admits_value _), afterValue_cons,
        ofTokens_members _ _ hothers, ofTokens_cons hclose]
      simp only [Reading.behind_behind, memberEvents, List.nil_append, List.append_assoc,
        List.cons_append]

end Containers

theorem tokens_say (value : Value) : Says value := by
  induction value using induct with
  | string units => exact fun hadmits => ofTokens_cons (hadmits (.string units) nofun)
  | number text => exact fun hadmits => ofTokens_cons (hadmits (.number text) nofun)
  | boolean value => exact fun hadmits => ofTokens_cons (hadmits (.boolean value) nofun)
  | null => exact fun hadmits => ofTokens_cons (hadmits .null nofun)
  | array elements ih =>
      intro place containers hadmits rest complete
      rw [tokens, List.cons_append, List.append_assoc, List.singleton_append,
        ofTokens_cons (hadmits .openBracket nofun), ofTokens_array rest complete ih,
        Reading.behind_behind]
      rfl
  | object members ih =>
      intro place containers hadmits rest complete
      rw [tokens, List.cons_append, List.append_assoc, List.singleton_append,
        ofTokens_cons (hadmits .openBrace nofun), ofTokens_object rest complete ih,
        Reading.behind_behind]
      rfl

/-- The tokens of a value are a whole text, and say its events. -/
theorem ofTokens_tokens (value : Value) :
    Event.ofTokens .start value.tokens true = ⟨value.events, true⟩ := by
  have hsaid := value.tokens_say (admits_value []) [] true
  rw [List.append_nil] at hsaid
  rw [Place.start, hsaid]
  simp [Place.afterValue, Event.ofTokens, Reading.behind]

end Value

end KerberosHttp.Json
