import KerberosHttp.Proofs.Soap.Outline
import KerberosHttp.Proofs.Text.Trim

/-!
# The text of a fault

The pass adds character data to a fault wherever the path spells one of its fields.
It compares names only, so it does not matter in which element the path lies: the
code of a fault may still grow after the fault has ended.

## Strategy

`FieldText.ofEvents` reads off the events alone what text stands at a field, one
text for each element at it.  `fault_of_run` shows that a pass over the same events
adds exactly that: all of it to the code, and to the reason the text of the first
element only.  Below a body nothing is open at a field (`rest_ofEvents`), so after
the first element of a body has ended only the elements that begin later count.

## Main statement

* `fault_fixed_iff`: the operation and the presence of a fault are final once the
  first element of a body has ended, and its code and reason are exactly if no later
  element adds to them.
-/

namespace KerberosHttp.Soap

/-- A field stands at least two elements further in than a body. -/
theorem FaultField.two_le_length_trail (field : FaultField) (version : Version) :
    2 ≤ (field.trail version).length := by
  cases version <;> cases field <;> decide

/-- The text that some events have at a field, one text for each element at it. -/
structure FieldText where
  /-- The text of the element that is open before the first event -/
  rest : String
  /-- The texts of the elements that begin among the events, in order -/
  begun : List String
  deriving DecidableEq, Repr

namespace FieldText

/-- All the text. -/
def all (texts : FieldText) : String := texts.rest ++ String.join texts.begun

/-- The text of the first element at the field, if some have begun before. -/
def first (texts : FieldText) : Nat → String
  | 0 => texts.rest ++ texts.begun.headD ""
  | 1 => texts.rest
  | _ => ""

/-- The text with that of one event in front. -/
def before (texts : FieldText) (version : Version) (field : FaultField) (path : Path) :
    Xml.Event → FieldText
  | .start name =>
    if Path.field? version (Scan.ancestor version name :: path) = some field then
      ⟨"", texts.rest :: texts.begun⟩
    else texts
  | event =>
    if path.field? version = some field then
      { texts with rest := event.characters?.getD "" ++ texts.rest }
    else texts

/-- The text that some events have at a field, from a path on. -/
def ofEvents (version : Version) (field : FaultField) : Path → List Xml.Event → FieldText
  | _, [] => ⟨"", []⟩
  | path, event :: events =>
    (ofEvents version field (path.after version event) events).before version field path event

variable {version : Version} {field : FaultField} {path : Path}

/-! ## One event in front -/

theorem before_start (texts : FieldText) (name : Xml.ElementName) :
    texts.before version field path (.start name) =
      if Path.field? version (Scan.ancestor version name :: path) = some field then
        ⟨"", texts.rest :: texts.begun⟩
      else texts := rfl

theorem before_leaf (texts : FieldText) (leaf : Xml.Leaf) :
    texts.before version field path leaf.event =
      if path.field? version = some field then
        { texts with rest := leaf.event.characters?.getD "" ++ texts.rest }
      else texts := by
  cases leaf <;> rfl

@[simp] theorem before_empty (texts : FieldText) (name : Xml.ElementName) :
    texts.before version field path (.empty name) = texts := by
  simp [before, Xml.Event.characters?]

@[simp] theorem before_close (texts : FieldText) :
    texts.before version field path .close = texts := by
  simp [before, Xml.Event.characters?]

theorem all_prepend (texts : FieldText) (text : String) :
    ({ texts with rest := text ++ texts.rest } : FieldText).all = text ++ texts.all := by
  simp only [all, String.append_assoc]

theorem all_begin (texts : FieldText) :
    (⟨"", texts.rest :: texts.begun⟩ : FieldText).all = texts.all := by
  simp only [all, String.join_cons, String.empty_append]

theorem first_nil (reasons : Nat) : (⟨"", []⟩ : FieldText).first reasons = "" := by
  match reasons with
  | 0 => rfl
  | 1 => rfl
  | _ + 2 => rfl

theorem first_prepend (texts : FieldText) (text : String) (reasons : Nat) :
    ({ texts with rest := text ++ texts.rest } : FieldText).first reasons =
      (if reasons ≤ 1 then text else "") ++ texts.first reasons := by
  match reasons with
  | 0 => simp [first, String.append_assoc]
  | 1 => simp [first]
  | _ + 2 => simp [first]

theorem first_begin (texts : FieldText) (reasons : Nat) :
    (⟨"", texts.rest :: texts.begun⟩ : FieldText).first reasons = texts.first (reasons + 1) := by
  match reasons with
  | 0 => simp [first]
  | 1 => simp [first]
  | _ + 2 => rfl

/-! ## Where nothing is open at a field -/

/-- No element that is open stands at a field. -/
def Outside (version : Version) (field : FaultField) (path : Path) : Prop :=
  ∀ outer : Path, outer <:+ path → outer.field? version ≠ some field

theorem outside_cons_iff {innermost : Ancestor} :
    Outside version field (innermost :: path) ↔
      Path.field? version (innermost :: path) ≠ some field ∧ Outside version field path := by
  constructor
  · intro houtside
    exact ⟨houtside _ (List.suffix_refl _),
      fun outer hsuffix => houtside outer (hsuffix.trans (List.suffix_cons innermost path))⟩
  · rintro ⟨hhere, houtside⟩ outer hsuffix
    rcases List.suffix_cons_iff.mp hsuffix with rfl | hsuffix
    · exact hhere
    · exact houtside outer hsuffix

theorem Outside.tail (houtside : Outside version field path) : Outside version field path.tail :=
  fun outer hsuffix => houtside outer (hsuffix.trans (List.tail_suffix path))

theorem length_of_field? (hfield : path.field? version = some field) :
    path.length = (field.trail version).length + 2 := by
  have hleads : path.leadsTo (field.trail version) = true := by
    unfold Path.field? at hfield
    split at hfield
    · next hcode =>
        cases hfield
        exact hcode
    · split at hfield
      · next hreason =>
          cases hfield
          exact hreason
      · cases hfield
  unfold Path.leadsTo at hleads
  split at hleads
  · next hdrop =>
      have hlength := congrArg List.length hdrop
      rw [List.length_drop] at hlength
      simp only [List.length_cons, List.length_nil] at hlength
      omega
  · cases hleads

theorem field?_eq_none_of_length (hlength : path.length ≤ 3) : path.field? version = none := by
  cases hfield : path.field? version with
  | none => rfl
  | some field =>
      have hlong := length_of_field? hfield
      have htrail := field.two_le_length_trail version
      omega

theorem outside_of_length (hlength : path.length ≤ 3) : Outside version field path := by
  intro outer hsuffix
  rw [field?_eq_none_of_length (hsuffix.length_le.trans hlength)]
  exact (Option.some_ne_none field).symm

/-- Where no element can be open at a field, an event has no text at it. -/
theorem before_of_length (texts : FieldText) (hlength : path.length ≤ 2) (event : Xml.Event) :
    texts.before version field path event = texts := by
  have hhere : path.field? version = none := field?_eq_none_of_length (by omega)
  cases event with
  | start name =>
      have hinner : Path.field? version (Scan.ancestor version name :: path) = none :=
        field?_eq_none_of_length (by rw [List.length_cons]; omega)
      rw [before_start, hinner, if_neg (Option.some_ne_none field).symm]
  | _ => simp [before, hhere]

/-- Where nothing is open at a field, all text at it is that of elements that begin. -/
theorem rest_ofEvents {events : List Xml.Event} (houtside : Outside version field path) :
    (ofEvents version field path events).rest = "" := by
  induction events generalizing path with
  | nil => rfl
  | cons event events ih =>
      have hfield := houtside path (List.suffix_refl path)
      cases event using Xml.Event.byKind with
      | start name =>
          rw [ofEvents, before_start, Path.after_start]
          by_cases hbegins : Path.field? version (Scan.ancestor version name :: path) = some field
          · -- What follows belongs to this element, and nothing is left for one before it.
            rw [if_pos hbegins]
          · rw [if_neg hbegins]
            exact ih (outside_cons_iff.mpr ⟨hbegins, houtside⟩)
      | empty name =>
          rw [ofEvents, before_empty, Path.after_empty]
          exact ih houtside
      | close =>
          rw [ofEvents, before_close, Path.after_close]
          exact ih houtside.tail
      | leaf leaf =>
          rw [ofEvents, before_leaf, if_neg hfield, Path.after_leaf]
          exact ih houtside

/-- Where no element can be open at a field, all text at it is that of elements that
begin. -/
theorem all_of_length {events : List Xml.Event} (hlength : path.length ≤ 3) :
    (ofEvents version field path events).all =
      String.join (ofEvents version field path events).begun := by
  rw [all, rest_ofEvents (outside_of_length hlength), String.empty_append]

theorem first_of_length {events : List Xml.Event} (hlength : path.length ≤ 3) (reasons : Nat) :
    (ofEvents version field path events).first reasons =
      if reasons = 0 then (ofEvents version field path events).begun.headD "" else "" := by
  have hrest : (ofEvents version field path events).rest = "" :=
    rest_ofEvents (outside_of_length hlength)
  match reasons with
  | 0 => rw [first, hrest, String.empty_append, if_pos rfl]
  | 1 => rw [first, hrest, if_neg Nat.one_ne_zero]
  | _ + 2 => simp [first]

end FieldText

/-! ## What a pass adds to a fault -/

namespace Scan

variable {version : Version}

/-- What one event adds to a fault, told by what all that follows adds. -/
theorem Steps.fault_grows {scan next : Scan} {event : Xml.Event}
    (hsteps : Steps version scan event next) (hsome : scan.operation ≠ none) {fault : Fault}
    (hfault : scan.fault = some fault) (codes reasons : FieldText) :
    ∃ grown, next.fault = some grown ∧
      grown.code ++ codes.all =
        fault.code ++ (codes.before version .code scan.path event).all ∧
      grown.reason ++ reasons.first next.reasons =
        fault.reason ++ (reasons.before version .reason scan.path event).first scan.reasons ∧
      next.reasons + reasons.begun.length =
        scan.reasons + (reasons.before version .reason scan.path event).begun.length := by
  cases hsteps with
  | @start name entered henters =>
      have hentered : entered.fault = some fault := (henters.settled hsome).2.trans hfault
      refine ⟨fault, by rw [push_eq]; exact hentered, ?_, ?_⟩
      · rw [FieldText.before_start]
        split
        · rw [FieldText.all_begin]
        · rfl
      · rw [push_eq, henters.path_eq, henters.reasons_eq, FieldText.before_start, hentered]
        by_cases hbegins : Path.field? version (ancestor version name :: scan.path) = some .reason
        · simp [hbegins, FieldText.first_begin]
          omega
        · simp [hbegins]
  | empty henters =>
      refine ⟨fault, (henters.settled hsome).2.trans hfault, ?_, ?_⟩
      · rw [FieldText.before_empty]
      · rw [FieldText.before_empty, henters.reasons_eq]
        exact ⟨rfl, rfl⟩
  | close =>
      refine ⟨fault, hfault, ?_, ?_⟩
      · rw [FieldText.before_close]
      · rw [FieldText.before_close]
        exact ⟨rfl, rfl⟩
  | @idle leaf _ hevent hleaf hfield =>
      subst hevent
      have hnone : scan.path.field? version = none := by simpa [field?, hfault] using hfield
      refine ⟨fault, hfault, ?_, ?_⟩
      · simp [FieldText.before_leaf, hnone]
      · simp [FieldText.before_leaf, hnone]
  | @text leaf _ field characters hevent hleaf hfield hcharacters =>
      subst hevent
      have hsome : scan.path.field? version = some field := by simpa [field?, hfault] using hfield
      rw [append_eq, FieldText.before_leaf, FieldText.before_leaf, hsome, hcharacters]
      refine ⟨extend scan.reasons field characters fault, by rw [hfault, Option.map_some], ?_⟩
      cases field with
      | code => simp [extend, FieldText.all_prepend, String.append_assoc]
      | reason =>
          by_cases hfirst : scan.reasons ≤ 1
          · simp [extend, FieldText.first_prepend, hfirst, String.append_assoc]
          · simp [extend, FieldText.first_prepend, hfirst]

/-- A pass that knows the operation adds to a fault the text that its events have at
the fields. -/
theorem fault_of_run {scan final : Scan} {events : List Xml.Event}
    (hrun : scan.run version events = .ok final) (hsome : scan.operation ≠ none) {fault : Fault}
    (hfault : scan.fault = some fault) :
    final.fault = some
        ⟨fault.code ++ (FieldText.ofEvents version .code scan.path events).all,
          fault.reason ++
            (FieldText.ofEvents version .reason scan.path events).first scan.reasons⟩ ∧
      final.reasons = scan.reasons +
        (FieldText.ofEvents version .reason scan.path events).begun.length := by
  induction events generalizing scan fault with
  | nil =>
      cases hrun
      obtain ⟨code, reason⟩ := fault
      refine ⟨?_, rfl⟩
      rw [hfault, FieldText.ofEvents, FieldText.ofEvents, FieldText.first_nil]
      simp [FieldText.all]
  | cons event events ih =>
      obtain ⟨next, hstep, hrest⟩ := run_cons_eq_ok_iff.mp hrun
      obtain ⟨grown, hgrown, hcode, hreason, hreasons⟩ := hstep.fault_grows hsome hfault
        (FieldText.ofEvents version .code next.path events)
        (FieldText.ofEvents version .reason next.path events)
      obtain ⟨hfinal, hcount⟩ := ih hrest ((hstep.settled hsome).1 ▸ hsome) hgrown
      simp only [FieldText.ofEvents, ← hstep.path_eq]
      rw [hfinal, hcount, hcode, hreason, hreasons]
      exact ⟨rfl, rfl⟩

/-! ## The first element of a body -/

/-- Before an operation is known there is no fault. -/
def Fresh (scan : Scan) : Prop :=
  scan.operation = none → scan.fault = none ∧ scan.reasons = 0

theorem Steps.fresh {scan next : Scan} {event : Xml.Event}
    (hsteps : Steps version scan event next) (hfresh : scan.Fresh) : next.Fresh := by
  intro hnext
  obtain ⟨hfault, hreasons⟩ := hfresh (hsteps.untold hnext)
  cases hsteps with
  | @start name entered henters =>
      have hentered : entered.fault = none := by
        cases henters with
        | operation => rw [push_operation] at hnext; cases hnext
        | _ => exact hfault
      rw [push_eq, hentered]
      exact ⟨rfl, by simp [henters.reasons_eq, hreasons]⟩
  | empty henters =>
      refine ⟨?_, henters.reasons_eq.trans hreasons⟩
      cases henters with
      | operation => cases hnext
      | _ => exact hfault
  | close => exact ⟨hfault, hreasons⟩
  | idle => exact ⟨hfault, hreasons⟩
  | text => exact ⟨by rw [append_eq, hfault]; rfl, by rw [append_eq]; exact hreasons⟩

theorem fresh_of_run {scan final : Scan} {events : List Xml.Event}
    (hrun : scan.run version events = .ok final) (hfresh : scan.Fresh) : final.Fresh :=
  holds_of_run Steps.fresh hrun hfresh

/-- The first element of a body begins. -/
theorem Steps.first {scan next : Scan} {event : Xml.Event} {name : Xml.ElementName}
    {body root : Ancestor} (hsteps : Steps version scan event next)
    (hevent : event = .start name ∨ event = .empty name) (hpath : scan.path = [body, root])
    (hbody : body.isBody = true) (hnone : scan.operation = none) :
    next.operation = some name.localName ∧
      next.fault = (if IsNamed version "Fault" name then some ⟨"", ""⟩ else scan.fault) ∧
      next.reasons = scan.reasons := by
  rcases hevent with rfl | rfl
  · obtain ⟨entered, henters, rfl⟩ := steps_start_iff.mp hsteps
    have henter := enter_eq_ok_iff.mpr henters
    rw [enter_operation hpath hbody hnone] at henter
    cases henter
    have hshort : Path.field? version (ancestor version name :: scan.path) = none :=
      FieldText.field?_eq_none_of_length (by simp [hpath])
    rw [push_eq]
    exact ⟨rfl, rfl, by simp [hshort]⟩
  · have henter := enter_eq_ok_iff.mpr (steps_empty_iff.mp hsteps)
    rw [enter_operation hpath hbody hnone] at henter
    cases henter
    exact ⟨rfl, rfl, rfl⟩

theorem exists_event_of_spells {name : Xml.ElementName} {inside : Xml.Content}
    {events : List Xml.Event} (hspells : (Xml.Content.element name inside .nil).Spells events) :
    ∃ event rest, events = event :: rest ∧ (event = .start name ∨ event = .empty name) := by
  cases hspells with
  | empty => exact ⟨_, _, rfl, .inr rfl⟩
  | element => exact ⟨_, _, rfl, .inl rfl⟩

/-- The first element of a body has ended. -/
theorem first_of_run {scan closed : Scan} {events : List Xml.Event} {name : Xml.ElementName}
    {inside : Xml.Content} {body root : Ancestor} (hpath : scan.path = [body, root])
    (hbody : body.isBody = true) (hnone : scan.operation = none)
    (hfresh : scan.fault = none ∧ scan.reasons = 0)
    (hspells : (Xml.Content.element name inside .nil).Spells events)
    (hrun : scan.run version events = .ok closed) :
    closed.operation = some name.localName ∧ (closed.fault.isSome ↔ IsNamed version "Fault" name) ∧
      (IsNamed version "Fault" name → closed.reasons =
        (FieldText.ofEvents version .reason [body, root] events).begun.length) := by
  -- Its first event settles the operation; the rest of it can only add text.
  obtain ⟨event, rest, rfl, hevent⟩ := exists_event_of_spells hspells
  obtain ⟨next, hstep, hrest⟩ := run_cons_eq_ok_iff.mp hrun
  obtain ⟨hoperation, hfault, hreasons⟩ := hstep.first hevent hpath hbody hnone
  have hsome : next.operation ≠ none := by rw [hoperation]; exact Option.some_ne_none _
  obtain ⟨hkept, hpresent⟩ := settled_of_run hrest hsome
  refine ⟨hkept.trans hoperation, ?_, fun hname => ?_⟩
  · rw [hpresent, hfault, hfresh.1]
    split
    · next hname => simp [hname]
    · next hname => simp [hname]
  · rw [if_pos hname] at hfault
    obtain ⟨-, hcount⟩ := fault_of_run hrest hsome hfault
    have hshort : List.length [body, root] ≤ 2 := Nat.le_refl 2
    rw [hcount, hreasons, hfresh.2, Nat.zero_add, hstep.path_eq, hpath, FieldText.ofEvents,
      FieldText.before_of_length _ hshort]

end Scan

/-- What a later text does to a part of a fault shows unless it is blank. -/
theorem trimFault_append_eq_iff {fault : Fault} {code reason : String} :
    Scan.trimFault ⟨fault.code ++ code, fault.reason ++ reason⟩ = Scan.trimFault fault ↔
      Text.Blank code ∧ Text.Blank reason := by
  simp only [Scan.trimFault, Fault.mk.injEq, Text.trim_append_eq_iff]

/-- **What later elements do to a fault.**  Once the first element of a body has ended,
the operation and the presence of a fault are final.  Its code goes on growing by the
text of every later element at the place of a code, and its reason, if the fault had
none, by the text of the first later element at the place of a reason.  So the fault is
what it was at the end of its element exactly if those texts are blank. -/
theorem fault_fixed_iff (version : Version) (before first later : List Xml.Event)
    {atBody closed final : Scan} {body root : Ancestor} {name : Xml.ElementName}
    {inside : Xml.Content} (hbefore : Scan.start.run version before = .ok atBody)
    (hpath : atBody.path = [body, root]) (hbody : body.isBody = true)
    (hnone : atBody.operation = none)
    (hspells : (Xml.Content.element name inside .nil).Spells first)
    (hfirst : atBody.run version first = .ok closed)
    (hlater : closed.run version later = .ok final) :
    (closed.operation = some name.localName ∧ final.operation = some name.localName) ∧
    ((closed.fault.isSome ↔ IsNamed version "Fault" name) ∧
      (final.fault.isSome ↔ IsNamed version "Fault" name)) ∧
    (∀ fault, closed.fault = some fault → final.fault = some
      ⟨fault.code ++ String.join (FieldText.ofEvents version .code [body, root] later).begun,
        fault.reason ++
          if (FieldText.ofEvents version .reason [body, root] first).begun = [] then
            (FieldText.ofEvents version .reason [body, root] later).begun.headD ""
          else ""⟩) ∧
    (final.fault.map Scan.trimFault = closed.fault.map Scan.trimFault ↔
      (IsNamed version "Fault" name →
        (∀ text ∈ (FieldText.ofEvents version .code [body, root] later).begun,
          Text.Blank text) ∧
        ((FieldText.ofEvents version .reason [body, root] first).begun = [] →
          Text.Blank
            ((FieldText.ofEvents version .reason [body, root] later).begun.headD "")))) := by
  have hfresh := Scan.fresh_of_run hbefore (fun _ => ⟨rfl, rfl⟩) hnone
  obtain ⟨hoperation, hfault, hreasons⟩ :=
    Scan.first_of_run hpath hbody hnone hfresh hspells hfirst
  have hsome : closed.operation ≠ none := by rw [hoperation]; exact Option.some_ne_none _
  obtain ⟨hkept, hpresent⟩ := Scan.settled_of_run hlater hsome
  have hclosed : closed.path = [body, root] :=
    (Scan.path_of_spells hspells hfirst).trans hpath
  have hgrows : ∀ fault, closed.fault = some fault → final.fault = some
      ⟨fault.code ++ String.join (FieldText.ofEvents version .code [body, root] later).begun,
        fault.reason ++
          if (FieldText.ofEvents version .reason [body, root] first).begun = [] then
            (FieldText.ofEvents version .reason [body, root] later).begun.headD ""
          else ""⟩ := by
    intro fault hsomeFault
    have hname : IsNamed version "Fault" name := hfault.mp (by rw [hsomeFault]; rfl)
    obtain ⟨hfinal, -⟩ := Scan.fault_of_run hlater hsome hsomeFault
    have hshort : List.length [body, root] ≤ 3 := Nat.le_succ 2
    rw [hfinal, hclosed, hreasons hname, FieldText.all_of_length hshort,
      FieldText.first_of_length hshort]
    simp only [List.length_eq_zero_iff]
  refine ⟨⟨hoperation, hkept.trans hoperation⟩, ⟨hfault, by rw [hpresent]; exact hfault⟩,
    hgrows, ?_⟩
  cases hsomeFault : closed.fault with
  | none =>
      have hfinal : final.fault = none := by simpa [hsomeFault] using hpresent
      have hother : ¬ IsNamed version "Fault" name := fun hname => by
        simpa [hsomeFault] using hfault.mpr hname
      simp [hfinal, hother]
  | some fault =>
      have hname : IsNamed version "Fault" name := hfault.mp (by rw [hsomeFault]; rfl)
      rw [hgrows fault hsomeFault, Option.map_some, Option.map_some, Option.some.injEq,
        trimFault_append_eq_iff, Text.blank_join_iff]
      simp only [hname, true_implies]
      refine and_congr_right fun _ => ?_
      split
      · next hbegun => simp [hbegun]
      · next hbegun => simp [hbegun, Text.Blank]

section Lookalike

/-- An envelope up to the first element of its body. -/
private def untilBody : List Xml.Event :=
  [.other, .start (Version.named .v1_2 "Envelope"), .start (Version.named .v1_2 "Body")]

/-- Elements from one named `Fault` down to a code with some text. -/
private def coded (label : String → Xml.ElementName) (text : String) : List Xml.Event :=
  [.start (label "Fault"), .start (label "Code"), .start (label "Value"),
    .text (Bytes.ofAscii text), .close, .close, .close]

private def codedContent (label : String → Xml.ElementName) (text : String) : Xml.Content :=
  .element (label "Code")
    (.element (label "Value") (.leaf (.text (Bytes.ofAscii text)) .nil) .nil) .nil

/-- A fault is followed by an element of no name space that looks like one: its code is
added to the code of the fault. -/
theorem fault_fixed_iff_lookalike :
    ∃ atBody closed final : Scan,
      Scan.start.run .v1_2 untilBody = .ok atBody ∧
      atBody.run .v1_2 (coded (Version.named .v1_2) "a") = .ok closed ∧
      closed.run .v1_2 (coded (⟨·, none⟩) "b" ++ [.close, .close]) = .ok final ∧
      closed.fault = some ⟨"a", ""⟩ ∧ final.fault = some ⟨"ab", ""⟩ ∧
      final.fault.map Scan.trimFault ≠ closed.fault.map Scan.trimFault := by
  have hspells : (Xml.Content.element (Version.named .v1_2 "Fault")
      (codedContent (Version.named .v1_2) "a") .nil).Spells (coded (Version.named .v1_2) "a") :=
    Xml.Content.spells_of_ofEvents? rfl
  obtain ⟨-, -, hgrows, hfixed⟩ := fault_fixed_iff .v1_2 untilBody _
    (coded (⟨·, none⟩) "b" ++ [.close, .close]) rfl rfl (by decide) rfl hspells rfl rfl
  refine ⟨_, _, _, rfl, rfl, rfl, rfl, hgrows _ rfl, ?_⟩
  rw [Ne, hfixed]
  intro hblank
  have hlater : Text.Blank "b" := (hblank ⟨rfl, rfl⟩).1 "b" (List.mem_singleton.mpr rfl)
  exact absurd hlater (by decide)

end Lookalike

end KerberosHttp.Soap
