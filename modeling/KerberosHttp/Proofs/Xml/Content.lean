import KerberosHttp.Xml.Document

/-!
# The tree of a document

`Xml.Event` is what a reader delivers, one event after another.  This file holds
the tree that the events of a whole document spell, so that what a document says
can be told without a pass over it.

`Content` is what stands in an element or in a document, in order: elements with
their own content, and leaves.  `Content.Spells` relates it to its events; an
element without content may be spelled by one event or by two.  The events of a
document have a tree exactly if every end comes while an element is open
(`Nested`) and every element that began has ended; `Content.ofEvents?` finds it,
reading from the back.

## Main statements

* `Content.spells_of_ofEvents?`: the tree that is found spells the events.
* `Content.exists_ofEvents?`: nested events that leave nothing open have a tree.
* `Document.nested_read`: the reader delivers an end only while an element is open.
-/

namespace KerberosHttp.Xml

/-- The characters that an event stands for, unless they cannot be decoded.  What is no
character data stands for none. -/
def Event.characters? : Event → Option String
  | text content => (unescape content).toOption
  | cdata content => (Utf8.decode content).toOption
  | _ => some ""

/-- All character data of some events can be decoded. -/
def Decodes (events : List Event) : Prop := ∀ event ∈ events, event.characters? ≠ none

instance (events : List Event) : Decidable (Decodes events) :=
  inferInstanceAs (Decidable (∀ event ∈ events, event.characters? ≠ none))

/-- Something in a document that is no element. -/
inductive Leaf
  | text (content : Bytes)
  | cdata (content : Bytes)
  | doctype
  | other
  deriving DecidableEq, Repr

/-- The event of a leaf. -/
def Leaf.event : Leaf → Event
  | text content => .text content
  | cdata content => .cdata content
  | doctype => .doctype
  | other => .other

/-- The cases of an event, with all that is no tag as one of them. -/
@[elab_as_elim]
theorem Event.byKind {motive : Event → Prop} (start : ∀ name, motive (.start name))
    (empty : ∀ name, motive (.empty name)) (close : motive .close)
    (leaf : ∀ leaf : Leaf, motive leaf.event) (event : Event) : motive event := by
  cases event with
  | start name => exact start name
  | empty name => exact empty name
  | close => exact close
  | text content => exact leaf (.text content)
  | cdata content => exact leaf (.cdata content)
  | doctype => exact leaf .doctype
  | other => exact leaf .other

/-- What stands in an element or in a document, in order. -/
inductive Content
  | nil
  | element (name : ElementName) (inside rest : Content)
  | leaf (leaf : Leaf) (rest : Content)
  deriving DecidableEq, Repr

/-- An element with its content. -/
structure Element where
  name : ElementName
  content : Content
  deriving DecidableEq, Repr

/-- The elements that stand directly in a content, in order. -/
def Content.elements : Content → List Element
  | nil => []
  | element name inside rest => ⟨name, inside⟩ :: rest.elements
  | leaf _ rest => rest.elements

/-- The events that spell a content. -/
inductive Content.Spells : Content → List Event → Prop
  | nil : Spells .nil []
  | empty {name : ElementName} {rest : Content} {after : List Event} :
      Spells rest after → Spells (.element name .nil rest) (.empty name :: after)
  | element {name : ElementName} {inside rest : Content} {inner after : List Event} :
      Spells inside inner → Spells rest after →
        Spells (.element name inside rest) (.start name :: (inner ++ .close :: after))
  | leaf {leaf : Leaf} {rest : Content} {after : List Event} :
      Spells rest after → Spells (.leaf leaf rest) (leaf.event :: after)

/-! ## Nesting -/

/-- How many elements are open after some events, if every end comes while one is. -/
def openAfter? : Nat → List Event → Option Nat
  | depth, [] => some depth
  | depth, .start _ :: rest => openAfter? (depth + 1) rest
  | 0, .close :: _ => none
  | depth + 1, .close :: rest => openAfter? depth rest
  | depth, _ :: rest => openAfter? depth rest

@[simp] theorem openAfter?_empty (depth : Nat) (name : ElementName) (rest : List Event) :
    openAfter? depth (.empty name :: rest) = openAfter? depth rest := by
  simp [openAfter?]

@[simp] theorem openAfter?_leaf (depth : Nat) (leaf : Leaf) (rest : List Event) :
    openAfter? depth (leaf.event :: rest) = openAfter? depth rest := by
  cases leaf <;> simp [Leaf.event, openAfter?]

/-- Every end comes while an element is open. -/
def Nested (events : List Event) : Prop := (openAfter? 0 events).isSome

instance (events : List Event) : Decidable (Nested events) :=
  inferInstanceAs (Decidable ((openAfter? 0 events).isSome = true))

theorem openAfter?_append {depth middle : Nat} {first : List Event}
    (hfirst : openAfter? depth first = some middle) (second : List Event) :
    openAfter? depth (first ++ second) = openAfter? middle second := by
  induction first generalizing depth with
  | nil =>
      obtain rfl : depth = middle := by simpa [openAfter?] using hfirst
      rfl
  | cons event rest ih =>
      cases event with
      | start name => exact ih hfirst
      | close =>
          cases depth with
          | zero => cases hfirst
          | succ depth => exact ih hfirst
      | _ =>
          simp only [List.cons_append, openAfter?] at hfirst ⊢
          exact ih hfirst

/-- A whole content leaves open what was open. -/
theorem Content.Spells.openAfter?_eq {content : Content} {events : List Event}
    (hspells : content.Spells events) (depth : Nat) : openAfter? depth events = some depth := by
  induction hspells generalizing depth with
  | nil => rfl
  | empty _ ih => rw [openAfter?_empty, ih]
  | element _ _ ihinside ihrest =>
      rw [openAfter?, openAfter?_append (ihinside (depth + 1)), openAfter?, ihrest]
  | leaf _ ih => rw [openAfter?_leaf, ih]

/-- An event of a leaf is that of one leaf only. -/
theorem Leaf.event_injective {first second : Leaf} (hsame : first.event = second.event) :
    first = second := by
  cases first <;> cases second <;> simp_all [event]

theorem Leaf.event_ne_start (leaf : Leaf) (name : ElementName) : leaf.event ≠ .start name := by
  cases leaf <;> exact Event.noConfusion

theorem Leaf.event_ne_close (leaf : Leaf) : leaf.event ≠ .close := by
  cases leaf <;> exact Event.noConfusion

theorem Content.Spells.of_start {content : Content} {name : ElementName} {rest : List Event}
    (hspells : content.Spells (.start name :: rest)) :
    ∃ inside others inner after, content = .element name inside others ∧
      inside.Spells inner ∧ others.Spells after ∧ rest = inner ++ .close :: after := by
  generalize hevents : Event.start name :: rest = events at hspells
  cases hspells with
  | nil => cases hevents
  | empty => cases hevents
  | element hinside hothers =>
      cases hevents
      exact ⟨_, _, _, _, rfl, hinside, hothers, rfl⟩
  | @leaf leaf => exact absurd (List.cons.inj hevents).1.symm (leaf.event_ne_start name)

theorem Content.Spells.of_leaf {content : Content} {leaf : Leaf} {rest : List Event}
    (hspells : content.Spells (leaf.event :: rest)) :
    ∃ others, content = .leaf leaf others ∧ others.Spells rest := by
  generalize hevents : leaf.event :: rest = events at hspells
  cases hspells with
  | nil => cases hevents
  | empty => cases leaf <;> cases hevents
  | @element name => exact absurd (List.cons.inj hevents).1 (leaf.event_ne_start name)
  | leaf hothers =>
      obtain ⟨hsame, rfl⟩ := List.cons.inj hevents
      rw [Leaf.event_injective hsame]
      exact ⟨_, rfl, hothers⟩

/-- A content without elements is spelled by leaves alone. -/
theorem Content.Spells.exists_leaf {content : Content} {events : List Event}
    (hspells : content.Spells events) (hnone : content.elements = []) :
    ∀ event ∈ events, ∃ leaf : Leaf, event = leaf.event := by
  induction hspells with
  | nil => exact fun _ hmem => absurd hmem List.not_mem_nil
  | empty => cases hnone
  | element => cases hnone
  | leaf _ ih => exact List.forall_mem_cons.mpr ⟨⟨_, rfl⟩, ih hnone⟩

/-! ## The tree of events -/

/-- What stands where some events begin, and what stands after each of the elements
that are open there, the innermost first.  Nothing, if an element that begins among
them never ends. -/
def Content.ofEnding? : List Event → Option (Content × List Content)
  | [] => some (.nil, [])
  | .close :: rest => (ofEnding? rest).map fun (here, outer) => (.nil, here :: outer)
  | .start name :: rest =>
    match ofEnding? rest with
    | some (inside, here :: outer) => some (.element name inside here, outer)
    | _ => none
  | .empty name :: rest =>
    (ofEnding? rest).map fun (here, outer) => (.element name .nil here, outer)
  | .text content :: rest => (ofEnding? rest).map (leafBefore (.text content))
  | .cdata content :: rest => (ofEnding? rest).map (leafBefore (.cdata content))
  | .doctype :: rest => (ofEnding? rest).map (leafBefore .doctype)
  | .other :: rest => (ofEnding? rest).map (leafBefore .other)
where
  /-- A leaf in front of what stands here. -/
  leafBefore (leaf : Leaf) (place : Content × List Content) : Content × List Content :=
    (.leaf leaf place.1, place.2)

theorem Content.ofEnding?_leaf (leaf : Leaf) (rest : List Event) :
    ofEnding? (leaf.event :: rest) = (ofEnding? rest).map (ofEnding?.leafBefore leaf) := by
  cases leaf <;> rfl

/-- The tree of a whole document. -/
def Content.ofEvents? (events : List Event) : Option Content :=
  match ofEnding? events with
  | some (content, []) => some content
  | _ => none

/-- Events that spell the rest of the place where they begin, end the element there,
spell the rest of the next place, and so on to the end of the document. -/
def Content.Ends : Content → List Content → List Event → Prop
  | here, [], events => Spells here events
  | here, next :: outer, events =>
    ∃ inner after, events = inner ++ .close :: after ∧ Spells here inner ∧ Ends next outer after

/-- What spells the beginning of a place may be put in front of it. -/
theorem Content.Ends.prepend {here larger : Content} (front : List Event)
    (hspells : ∀ events, Spells here events → Spells larger (front ++ events)) :
    ∀ {outer : List Content} {events : List Event},
      Ends here outer events → Ends larger outer (front ++ events) := by
  intro outer events hends
  cases outer with
  | nil => exact hspells events hends
  | cons next outer =>
      obtain ⟨inner, after, rfl, hinner, hafter⟩ := hends
      exact ⟨front ++ inner, after, by simp, hspells inner hinner, hafter⟩

theorem Content.ends_of_ofEnding? {events : List Event} {here : Content} {outer : List Content}
    (hending : ofEnding? events = some (here, outer)) : Ends here outer events := by
  induction events generalizing here outer with
  | nil =>
      simp only [ofEnding?, Option.some.injEq, Prod.mk.injEq] at hending
      obtain ⟨rfl, rfl⟩ := hending
      exact .nil
  | cons event rest ih =>
      cases event using Event.byKind with
      | start name =>
          rw [ofEnding?] at hending
          split at hending
          · next inside after others hrest =>
              cases hending
              -- The first of the places that end behind the tag is the content of this element.
              obtain ⟨inner, rest, rfl, hinner, hafter⟩ := ih hrest
              have hfront : ∀ events, Spells after events →
                  Spells (.element name inside after)
                    ((.start name :: (inner ++ [.close])) ++ events) := by
                intro events hspells
                simpa using Spells.element hinner hspells
              simpa using hafter.prepend _ hfront
          · cases hending
      | empty name =>
          obtain ⟨⟨inside, others⟩, hrest, hplace⟩ := Option.map_eq_some_iff.mp hending
          cases hplace
          exact (ih hrest).prepend [.empty name] fun _ hspells => .empty hspells
      | close =>
          obtain ⟨⟨inside, others⟩, hrest, hplace⟩ := Option.map_eq_some_iff.mp hending
          cases hplace
          exact ⟨[], rest, rfl, .nil, ih hrest⟩
      | leaf leaf =>
          rw [ofEnding?_leaf] at hending
          obtain ⟨⟨inside, others⟩, hrest, hplace⟩ := Option.map_eq_some_iff.mp hending
          cases hplace
          exact (ih hrest).prepend [leaf.event] fun _ hspells => .leaf hspells

/-- The tree that is found spells the events. -/
theorem Content.spells_of_ofEvents? {events : List Event} {content : Content}
    (htree : ofEvents? events = some content) : Spells content events := by
  unfold ofEvents? at htree
  split at htree
  · next hending =>
      cases htree
      exact ends_of_ofEnding? hending
  · cases htree

theorem Content.exists_ofEnding? {events : List Event} {depth : Nat}
    (hopen : openAfter? depth events = some 0) :
    ∃ here outer, ofEnding? events = some (here, outer) ∧ outer.length = depth := by
  induction events generalizing depth with
  | nil =>
      simp only [openAfter?, Option.some.injEq] at hopen
      exact ⟨.nil, [], rfl, hopen.symm⟩
  | cons event rest ih =>
      cases event with
      | start name =>
          obtain ⟨inside, outer, hrest, hlength⟩ := ih hopen
          match outer, hlength with
          | here :: outer, hlength =>
              refine ⟨.element name inside here, outer, ?_, by simpa using hlength⟩
              simp [ofEnding?, hrest]
      | close =>
          match depth, hopen with
          | depth + 1, hopen =>
              obtain ⟨here, outer, hrest, hlength⟩ := ih hopen
              exact ⟨.nil, here :: outer, by simp [ofEnding?, hrest], by simp [hlength]⟩
      | _ =>
          obtain ⟨here, outer, hrest, hlength⟩ := ih (by simpa [openAfter?] using hopen)
          exact ⟨_, outer,
            by simp only [ofEnding?, hrest, Option.map_some, ofEnding?.leafBefore]; rfl, hlength⟩

/-- Nested events that leave nothing open have a tree. -/
theorem Content.exists_ofEvents? {events : List Event} (hopen : openAfter? 0 events = some 0) :
    ∃ content, ofEvents? events = some content := by
  obtain ⟨here, outer, hending, hlength⟩ := exists_ofEnding? hopen
  rw [List.eq_nil_of_length_eq_zero hlength] at hending
  exact ⟨here, by simp [ofEvents?, hending]⟩

/-- Where nothing is left open in the end, an element that begins has a content and ends. -/
theorem Content.exists_spells_of_start {depth : Nat} {before rest : List Event}
    {name : ElementName} (hopen : openAfter? depth (before ++ .start name :: rest) = some 0) :
    ∃ (inside : Content) (inner after : List Event),
      rest = inner ++ .close :: after ∧ inside.Spells inner := by
  induction before generalizing depth with
  | nil =>
      have hinside : openAfter? (depth + 1) rest = some 0 := hopen
      obtain ⟨here, outer, hending, hlength⟩ := exists_ofEnding? hinside
      match outer, hlength with
      | _ :: _, _ =>
          obtain ⟨inner, after, hrest, hinner, -⟩ := ends_of_ofEnding? hending
          exact ⟨here, inner, after, hrest, hinner⟩
  | cons event before ih =>
      cases event with
      | start _ => exact ih hopen
      | close =>
          cases depth with
          | zero => cases hopen
          | succ depth => exact ih hopen
      | _ => exact ih (by simpa [openAfter?] using hopen)

/-! ## What a reader delivers -/

/-- The nesting of the reader is as deep as the events it has delivered. -/
theorem openAfter?_of_step {nesting inner : Nesting} {token : Token} {event : Event}
    (hstep : nesting.step token = .ok (inner, event)) (rest : List Event) :
    openAfter? nesting.length (event :: rest) = openAfter? inner.length rest := by
  cases token with
  | startTag content =>
      simp only [Nesting.step] at hstep
      cases htag : OpenElement.ofTag nesting content with
      | error cause => simp [htag, Except.map] at hstep
      | ok tag =>
          simp only [htag, Except.map, Except.ok.injEq, Prod.mk.injEq] at hstep
          obtain ⟨rfl, rfl⟩ := hstep
          rfl
  | emptyTag content =>
      simp only [Nesting.step] at hstep
      cases htag : OpenElement.ofTag nesting content with
      | error cause => simp [htag, Except.map] at hstep
      | ok tag =>
          simp only [htag, Except.map, Except.ok.injEq, Prod.mk.injEq] at hstep
          obtain ⟨rfl, rfl⟩ := hstep
          simp [openAfter?]
  | endTag content =>
      cases nesting with
      | nil => simp [Nesting.step] at hstep
      | cons innermost outer =>
          simp only [Nesting.step] at hstep
          split at hstep
          · cases hstep
            rfl
          · cases hstep
  | _ =>
      simp only [Nesting.step, Except.ok.injEq, Prod.mk.injEq] at hstep
      obtain ⟨rfl, rfl⟩ := hstep
      simp [openAfter?]

theorem Document.nested_ofTokens (nesting : Nesting) (tokens : List Token)
    (failure : Option Error) :
    (openAfter? nesting.length (Document.ofTokens nesting tokens failure).events).isSome := by
  induction tokens generalizing nesting with
  | nil => simp [Document.ofTokens, openAfter?]
  | cons token rest ih =>
      rw [Document.ofTokens]
      split
      · simp [openAfter?]
      · next inner event hstep =>
          simp only [openAfter?_of_step hstep]
          exact ih inner

/-- The reader delivers an end only while an element is open. -/
theorem Document.nested_read (content : Bytes) : Nested (Document.read content).events :=
  Document.nested_ofTokens [] _ _

end KerberosHttp.Xml
