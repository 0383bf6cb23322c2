import KerberosHttp.Proofs.Xml.Content

/-!
# Elements that have not ended

A document that is only read in part has no tree: elements may have begun that have not
ended.  This file says which those are without counting and without a stack.  Some events
leave an element open if a whole content follows its beginning, and before it stand events
that leave the elements around it open (`Unended`).

Events have elements that have not ended in this sense exactly if every end comes while
one is open (`exists_unended_iff`).
-/

namespace KerberosHttp.Xml

/-- Contents that stand one after the other are one content. -/
theorem Content.Spells.exists_append {content more : Content} {events after : List Event}
    (hspells : content.Spells events) (hmore : more.Spells after) :
    ∃ whole : Content, whole.Spells (events ++ after) := by
  induction hspells with
  | nil => exact ⟨more, hmore⟩
  | empty _ ih =>
      obtain ⟨whole, hwhole⟩ := ih
      exact ⟨_, .empty hwhole⟩
  | element hinside _ _ ih =>
      obtain ⟨whole, hwhole⟩ := ih
      exact ⟨_, by simpa using Spells.element hinside hwhole⟩
  | leaf _ ih =>
      obtain ⟨whole, hwhole⟩ := ih
      exact ⟨_, .leaf hwhole⟩

/-- The elements that some events begin and do not end, the innermost first.  Before,
between and after their beginnings stand whole contents. -/
inductive Unended : List ElementName → List Event → Prop
  | none {content : Content} {events : List Event} (hspells : content.Spells events) :
      Unended [] events
  | inside {names : List ElementName} {before : List Event} {name : ElementName}
      {content : Content} {inner : List Event} (houter : Unended names before)
      (hspells : content.Spells inner) :
      Unended (name :: names) (before ++ .start name :: inner)

namespace Unended

variable {names : List ElementName} {events : List Event}

/-- A content that follows leaves open what was open. -/
theorem append_content (hopen : Unended names events) {more : Content} {after : List Event}
    (hmore : more.Spells after) : Unended names (events ++ after) := by
  cases hopen with
  | none hspells =>
      obtain ⟨whole, hwhole⟩ := hspells.exists_append hmore
      exact .none hwhole
  | inside houter hspells =>
      obtain ⟨whole, hwhole⟩ := hspells.exists_append hmore
      simpa using houter.inside hwhole

/-- An end ends the innermost element, which is then part of a content. -/
theorem append_close {name : ElementName} (hopen : Unended (name :: names) events) :
    Unended names (events ++ [.close]) := by
  cases hopen with
  | @inside _ before _ content inner houter hspells =>
      have hwhole : (Content.element name content .nil).Spells
          (.start name :: (inner ++ [.close])) := .element hspells .nil
      simpa using houter.append_content hwhole

/-- There are as many as have begun and not ended. -/
theorem openAfter?_eq (hopen : Unended names events) :
    openAfter? 0 events = some names.length := by
  induction hopen with
  | none hspells => exact hspells.openAfter?_eq 0
  | @inside names before name content inner _ hspells ih =>
      rw [openAfter?_append ih, openAfter?, hspells.openAfter?_eq, List.length_cons]

/-- Where every end comes while an element is open, more events leave some elements open. -/
theorem exists_append (hopen : Unended names events) {after : List Event}
    (hnested : (openAfter? names.length after).isSome) :
    ∃ inner, Unended inner (events ++ after) := by
  induction after generalizing names events with
  | nil => exact ⟨names, by simpa using hopen⟩
  | cons event rest ih =>
      cases event using Event.byKind with
      | start name =>
          have hbegun : Unended (name :: names) (events ++ [.start name]) := hopen.inside .nil
          simpa using ih hbegun hnested
      | empty name =>
          rw [openAfter?_empty] at hnested
          simpa using ih (hopen.append_content (.empty .nil)) hnested
      | close =>
          cases names with
          | nil => cases hnested
          | cons innermost outer => simpa using ih hopen.append_close hnested
      | leaf leaf =>
          rw [openAfter?_leaf] at hnested
          simpa using ih (hopen.append_content (.leaf .nil)) hnested

end Unended

/-- Every end comes while an element is open exactly if some elements are left open. -/
theorem exists_unended_iff {events : List Event} :
    (∃ names, Unended names events) ↔ Nested events := by
  constructor
  · rintro ⟨names, hopen⟩
    rw [Nested, hopen.openAfter?_eq, Option.isSome_some]
  · intro hnested
    exact (Unended.none .nil).exists_append hnested

end KerberosHttp.Xml
