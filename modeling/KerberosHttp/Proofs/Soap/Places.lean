import KerberosHttp.Proofs.Soap.Outline
import Mathlib.Data.List.Induction

/-!
# What stands before an event

What the pass makes of an event depends on the events before it.  This file reads off
those events alone what matters of them: which elements are open, whether an envelope
and a body have begun, and whether the first element in the bodies is a fault.

`path_of_run` and `tells_of_run` show that a pass over the events has found the same, so
that a later file can say what an event does without the state of the pass.
-/

namespace KerberosHttp

/-- The name of the element that an event begins. -/
def Xml.Event.element? : Xml.Event → Option Xml.ElementName
  | .start name => some name
  | .empty name => some name
  | _ => none

namespace Soap

/-- An element at the place where it begins: with the path of the elements around it. -/
structure Placed where
  path : Path
  name : Xml.ElementName
  deriving DecidableEq

namespace Placed

/-- Whether it is the root, and an envelope. -/
def isEnvelope (version : Version) (element : Placed) : Bool :=
  element.path = [] ∧ IsNamed version "Envelope" element.name

/-- Whether it stands in the root, and is a body. -/
def isBody (version : Version) (element : Placed) : Bool :=
  element.path.length = 1 ∧ IsNamed version "Body" element.name

/-- Whether it stands directly in a body. -/
def inBody (element : Placed) : Bool :=
  match element.path with
  | [body, _] => body.isBody
  | _ => false

theorem isEnvelope_eq_false {version : Version} {element : Placed} (hpath : element.path ≠ []) :
    element.isEnvelope version = false := by
  simp [isEnvelope, hpath]

theorem isBody_eq_false {version : Version} {element : Placed}
    (hlength : element.path.length ≠ 1) : element.isBody version = false := by
  simp [isBody, hlength]

theorem inBody_eq_false {element : Placed} (hlength : element.path.length ≠ 2) :
    element.inBody = false := by
  unfold inBody
  split
  · next body root hpath =>
      rw [hpath] at hlength
      exact absurd rfl hlength
  · rfl

/-- The element that begins with an event, if one does. -/
def ofEvent (path : Path) (event : Xml.Event) : List Placed :=
  event.element?.toList.map (Placed.mk path)

@[simp] theorem ofEvent_start (path : Path) (name : Xml.ElementName) :
    ofEvent path (.start name) = [⟨path, name⟩] := rfl

@[simp] theorem ofEvent_empty (path : Path) (name : Xml.ElementName) :
    ofEvent path (.empty name) = [⟨path, name⟩] := rfl

@[simp] theorem ofEvent_close (path : Path) : ofEvent path .close = [] := rfl

@[simp] theorem ofEvent_leaf (path : Path) (leaf : Xml.Leaf) : ofEvent path leaf.event = [] := by
  cases leaf <;> rfl

end Placed

/-- The elements that begin among some events, from a path on. -/
def placedFrom (version : Version) : Path → List Xml.Event → List Placed
  | _, [] => []
  | path, event :: rest =>
    Placed.ofEvent path event ++ placedFrom version (path.after version event) rest

/-- A property of all events, told of each with those before it. -/
def Each (holds : List Xml.Event → Xml.Event → Prop) (events : List Xml.Event) : Prop :=
  ∀ before event after, events = before ++ event :: after → holds before event

theorem each_nil {holds : List Xml.Event → Xml.Event → Prop} : Each holds [] := by
  intro before event after hevents
  cases before <;> cases hevents

theorem each_concat_iff {holds : List Xml.Event → Xml.Event → Prop} {before : List Xml.Event}
    {event : Xml.Event} : Each holds (before ++ [event]) ↔ Each holds before ∧ holds before event := by
  constructor
  · intro heach
    refine ⟨fun earlier passed later hbefore => ?_, heach before event [] rfl⟩
    exact heach earlier passed (later ++ [event]) (by simp [hbefore])
  · rintro ⟨heach, hlast⟩ earlier passed later hevents
    cases later using List.reverseRecOn with
    | nil =>
        obtain ⟨rfl, hsame⟩ := List.append_inj' hevents rfl
        cases hsame
        exact hlast
    | append_singleton later last =>
        rw [← List.cons_append, ← List.append_assoc] at hevents
        obtain ⟨hbefore, -⟩ := List.append_inj' hevents rfl
        exact heach earlier passed later hbefore

/-- A property holds of all events, or there is a first of which it does not. -/
theorem each_or_first (holds : List Xml.Event → Xml.Event → Prop) (events : List Xml.Event) :
    Each holds events ∨ ∃ before event after, events = before ++ event :: after ∧
      Each holds before ∧ ¬ holds before event := by
  induction events using List.reverseRecOn with
  | nil => exact .inl each_nil
  | append_singleton before event ih =>
      rcases ih with heach | ⟨earlier, first, later, rfl, heach, hfirst⟩
      · by_cases hlast : holds before event
        · exact .inl (each_concat_iff.mpr ⟨heach, hlast⟩)
        · exact .inr ⟨before, event, [], rfl, heach, hlast⟩
      · exact .inr ⟨earlier, first, later ++ [event], by simp, heach, hfirst⟩

/-! ## After some events -/

section After

variable (version : Version) (before : List Xml.Event)

/-- The path of the elements that are open. -/
def Path.ofEvents : Path := before.foldl (Path.after version) []

/-- The elements that have begun. -/
def placed : List Placed := placedFrom version [] before

/-- Whether an envelope has begun. -/
def hasEnvelope : Bool := (placed version before).any (·.isEnvelope version)

/-- Whether a body has begun. -/
def hasBody : Bool := (placed version before).any (·.isBody version)

/-- The first of the elements that stand directly in the bodies. -/
def firstInBodies? : Option Xml.ElementName :=
  (((placed version before).filter Placed.inBody).map Placed.name).head?

/-- The first of the elements in the bodies is a fault. -/
def CarriesFault : Prop := ∃ name ∈ firstInBodies? version before, IsNamed version "Fault" name

instance : Decidable (CarriesFault version before) := inferInstanceAs (Decidable (∃ _ ∈ _, _))

/-- The field of the fault that character data belongs to now. -/
def fieldAfter? : Option FaultField :=
  if CarriesFault version before then (Path.ofEvents version before).field? version else none

end After

variable {version : Version}

theorem Path.ofEvents_concat (before : List Xml.Event) (event : Xml.Event) :
    Path.ofEvents version (before ++ [event]) =
      (Path.ofEvents version before).after version event := by
  rw [ofEvents, List.foldl_append]
  rfl

/-- A whole content leaves the path as it was. -/
theorem after_of_spells {content : Xml.Content} {events : List Xml.Event}
    (hspells : content.Spells events) (path : Path) :
    events.foldl (Path.after version) path = path := by
  induction hspells generalizing path with
  | nil => rfl
  | empty _ ih => exact ih path
  | element _ _ ihinside ihrest => simp [List.foldl_append, ihinside, ihrest]
  | leaf _ ih => rw [List.foldl_cons, Path.after_leaf, ih]

theorem placedFrom_concat (path : Path) (before : List Xml.Event) (event : Xml.Event) :
    placedFrom version path (before ++ [event]) =
      placedFrom version path before ++
        Placed.ofEvent (before.foldl (Path.after version) path) event := by
  induction before generalizing path with
  | nil => simp [placedFrom]
  | cons first rest ih =>
      rw [List.cons_append, placedFrom, ih, placedFrom, List.append_assoc]
      rfl

theorem placed_concat (before : List Xml.Event) (event : Xml.Event) :
    placed version (before ++ [event]) =
      placed version before ++ Placed.ofEvent (Path.ofEvents version before) event :=
  placedFrom_concat [] before event

/-! ## What the pass has found -/

namespace Scan

variable {envelope body : Bool} {first : Option Xml.ElementName}

/-- What is told after some more elements have begun. -/
def TellsAlso (version : Version) (envelope body : Bool) (first : Option Xml.ElementName)
    (begun : List Placed) (scan : Scan) : Prop :=
  scan.Tells version (envelope || begun.any (·.isEnvelope version))
    (body || begun.any (·.isBody version))
    (first.or ((begun.filter Placed.inBody).map Placed.name).head?)

theorem tellsAlso_nil_iff {scan : Scan} :
    scan.TellsAlso version envelope body first [] ↔ scan.Tells version envelope body first := by
  simp [TellsAlso]

theorem tellsAlso_singleton_iff {scan : Scan} {element : Placed} :
    scan.TellsAlso version envelope body first [element] ↔
      scan.Tells version (envelope || element.isEnvelope version)
        (body || element.isBody version)
        (first.or (if element.inBody then some element.name else none)) := by
  cases hinside : element.inBody <;> simp [TellsAlso, hinside]

/-- What an element tells depends on the place where it begins. -/
theorem Enters.tells {scan entered : Scan} {name : Xml.ElementName}
    (henters : Enters version scan name entered)
    (htells : scan.Tells version envelope body first) :
    entered.TellsAlso version envelope body first [⟨scan.path, name⟩] := by
  rw [tellsAlso_singleton_iff]
  cases henters with
  | root hpath hfirst hname =>
      have henvelope : Placed.isEnvelope version ⟨scan.path, name⟩ = true := by
        simp [Placed.isEnvelope, hpath, hname]
      rw [henvelope, Placed.isBody_eq_false (by simp [hpath]),
        Placed.inBody_eq_false (by simp [hpath]), Bool.or_true, Bool.or_false]
      exact ⟨rfl, htells.sawBody, by simpa using htells.operation, by simpa using htells.fault⟩
  | child hpath =>
      have hbody : Placed.isBody version ⟨scan.path, name⟩ =
          decide (IsNamed version "Body" name) := by
        simp [Placed.isBody, hpath]
      rw [Placed.isEnvelope_eq_false (by simp [hpath]), hbody,
        Placed.inBody_eq_false (by simp [hpath]), Bool.or_false, ← htells.sawBody]
      exact ⟨htells.sawEnvelope, rfl, by simpa using htells.operation, by simpa using htells.fault⟩
  | operation hpath hbody hnone =>
      have hinside : Placed.inBody ⟨scan.path, name⟩ = true := by
        simp [Placed.inBody, hpath, hbody]
      have hfirst : first = none := by
        simpa [htells.operation] using hnone
      subst hfirst
      rw [Placed.isEnvelope_eq_false (by simp [hpath]), Placed.isBody_eq_false (by simp [hpath]),
        hinside, Bool.or_false, Bool.or_false]
      exact htells.enters_first hpath hbody (.operation hpath hbody hnone)
  | indifferent hplace =>
      have hbelow : 2 ≤ scan.path.length := hplace.below
      have hroot : scan.path ≠ [] := List.ne_nil_of_length_pos (by omega)
      have hdeep : scan.path.length ≠ 1 := by omega
      have hlater : first.or (if Placed.inBody ⟨scan.path, name⟩ then some name else none) =
          first := by
        cases first with
        | some known => rfl
        | none =>
            -- An element in a body would be the first, but the operation is known there.
            have hnone : scan.operation = none := htells.operation
            have hinside : Placed.inBody ⟨scan.path, name⟩ = false := by
              unfold Placed.inBody
              split
              · next inner root hpath =>
                  exact Bool.eq_false_iff.mpr fun hinner => hplace.told _ _ hpath hinner hnone
              · rfl
            rw [hinside]
            rfl
      rw [hlater, Placed.isEnvelope_eq_false hroot, Placed.isBody_eq_false hdeep, Bool.or_false,
        Bool.or_false]
      exact htells

/-- What an event tells is the element that begins with it. -/
theorem Steps.tells {scan next : Scan} {event : Xml.Event}
    (hsteps : Steps version scan event next) (htells : scan.Tells version envelope body first) :
    next.TellsAlso version envelope body first (Placed.ofEvent scan.path event) := by
  cases hsteps with
  | start henters =>
      rw [Placed.ofEvent_start]
      exact (Tells.push_iff _).mpr (henters.tells htells)
  | empty henters =>
      rw [Placed.ofEvent_empty]
      exact henters.tells htells
  | close =>
      rw [Placed.ofEvent_close, tellsAlso_nil_iff]
      exact htells.withPath _
  | idle hevent =>
      rw [hevent, Placed.ofEvent_leaf, tellsAlso_nil_iff]
      exact htells
  | text hevent hleaf hfield hcharacters =>
      subst hevent
      rw [Placed.ofEvent_leaf, tellsAlso_nil_iff]
      exact htells.leaf (.text rfl hleaf hfield hcharacters)

theorem path_of_run {before : List Xml.Event} {scan : Scan}
    (hrun : start.run version before = .ok scan) : scan.path = Path.ofEvents version before := by
  induction before using List.reverseRecOn generalizing scan with
  | nil =>
      cases hrun
      rfl
  | append_singleton before event ih =>
      obtain ⟨middle, hbefore, hlast⟩ := run_concat_eq_ok_iff.mp hrun
      rw [hlast.path_eq, ih hbefore, Path.ofEvents_concat]

theorem tells_of_run {before : List Xml.Event} {scan : Scan}
    (hrun : start.run version before = .ok scan) :
    scan.Tells version (hasEnvelope version before) (hasBody version before)
      (firstInBodies? version before) := by
  induction before using List.reverseRecOn generalizing scan with
  | nil =>
      cases hrun
      exact tells_start
  | append_singleton before event ih =>
      obtain ⟨middle, hbefore, hlast⟩ := run_concat_eq_ok_iff.mp hrun
      have htells := hlast.tells (ih hbefore)
      rw [path_of_run hbefore] at htells
      simp only [hasEnvelope, hasBody, firstInBodies?, placed_concat, List.any_append,
        List.filter_append, List.map_append, List.head?_append]
      exact htells

theorem carriesFault_iff_of_run {before : List Xml.Event} {scan : Scan}
    (hrun : start.run version before = .ok scan) :
    CarriesFault version before ↔ scan.fault.isSome = true := by
  rw [(tells_of_run hrun).fault, Option.any_eq_true]
  simp [CarriesFault]

theorem field?_of_run {before : List Xml.Event} {scan : Scan}
    (hrun : start.run version before = .ok scan) :
    scan.field? version = fieldAfter? version before := by
  simp only [field?, fieldAfter?, path_of_run hrun, carriesFault_iff_of_run hrun]

/-- An element that begins in a document that is read on stands in an envelope. -/
theorem placed_eq_nil_of_run {before : List Xml.Event} {scan : Scan}
    (hrun : start.run version before = .ok scan) (hnone : hasEnvelope version before = false) :
    placed version before = [] ∧ Path.ofEvents version before = [] := by
  induction before using List.reverseRecOn generalizing scan with
  | nil => exact ⟨rfl, rfl⟩
  | append_singleton before event ih =>
      obtain ⟨middle, hbefore, hsteps⟩ := run_concat_eq_ok_iff.mp hrun
      rw [hasEnvelope, placed_concat, List.any_append, Bool.or_eq_false_iff] at hnone
      obtain ⟨hplaced, hpath⟩ := ih hbefore hnone.1
      have hmiddle : middle.path = [] := (path_of_run hbefore).trans hpath
      rw [placed_concat, Path.ofEvents_concat, hplaced, hpath, List.nil_append]
      -- An element that began here would be the envelope.
      have hroot : ∀ name entered, Enters version middle name entered →
          Placed.ofEvent (Path.ofEvents version before) event ≠ [⟨[], name⟩] := by
        intro name entered henters hevent
        have hname := (henters.of_root hmiddle).2.1
        simp [hevent, Placed.isEnvelope, hname] at hnone
      cases hsteps with
      | start henters => exact absurd (by rw [hpath]; rfl) (hroot _ _ henters)
      | empty henters => exact absurd (by rw [hpath]; rfl) (hroot _ _ henters)
      | close => exact ⟨rfl, rfl⟩
      | @idle leaf _ hevent => simp [hevent]
      | @text leaf _ _ _ hevent => simp [hevent]

end Scan

end Soap

end KerberosHttp
