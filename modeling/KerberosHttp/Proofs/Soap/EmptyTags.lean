import KerberosHttp.Proofs.Soap.FaultText
import KerberosHttp.Proofs.Soap.Places

/-!
# Empty tags

An element without content may be written by one tag or by two.  The pass reads the two
spellings by different branches, and they agree in all but one thing: a reason of a fault
that is written by one tag is not counted.  So the text of the next reason is kept as if
it were the first one's.

## Strategy

`Scan.behind` is the pass over the other spelling, told by the pass over this one: it has
counted some more reasons, and may have kept no text of a reason.  `Behind` is what makes
that true of every later event as well:

```text
missed = 0               the two passes are the same
missed > 0, not hidden   a reason was counted before in both, so neither keeps more text
missed > 0, hidden       no reason was counted before, so only this pass keeps the next
```

One event keeps the relation (`Behind.spelled`), and so does a run (`Behind.run_respell`).
Whether a reason was hidden in the end is then told by the events alone (`HidesReason`).
-/

namespace KerberosHttp

namespace Xml

/-- The event, or the two that say the same if it is an empty tag. -/
def Event.spelled (event : Event) (apart : Bool) : List Event :=
  match event, apart with
  | .empty name, true => [.start name, .close]
  | event, _ => [event]

/-- The events with some of the empty tags written as a start and an end: those at the
places that are chosen. -/
def respell : (Nat → Bool) → List Event → List Event
  | _, [] => []
  | chosen, event :: rest => event.spelled (chosen 0) ++ respell (chosen ∘ Nat.succ) rest

end Xml

namespace Soap

/-- The fault without the text of its reason. -/
def Fault.withoutReason (fault : Fault) : Fault := { fault with reason := "" }

/-- The envelope without the text of the reason of its fault. -/
def Envelope.withoutReason (envelope : Envelope) : Envelope :=
  { envelope with fault := envelope.fault.map Fault.withoutReason }

variable {version : Version}

/-! ## Where a reason begins -/

namespace FieldText

/-- Where an element at a field begins, no other is open. -/
theorem outside_of_field?_cons {field : FaultField} {innermost : Ancestor} {path : Path}
    (hfield : Path.field? version (innermost :: path) = some field) :
    Outside version field path := by
  intro outer hsuffix houter
  have hlong := length_of_field? hfield
  have hshort := length_of_field? houter
  have hle := hsuffix.length_le
  rw [List.length_cons] at hlong
  omega

end FieldText

namespace Scan

open FieldText

/-- An element of this name that begins here is a reason of the fault. -/
def BeginsReason (version : Version) (scan : Scan) (name : Xml.ElementName) : Prop :=
  scan.fault.isSome ∧ Path.field? version (ancestor version name :: scan.path) = some .reason

instance (version : Version) (scan : Scan) (name : Xml.ElementName) :
    Decidable (scan.BeginsReason version name) :=
  inferInstanceAs (Decidable (_ ∧ _))

theorem push_eq_of_begins (scan : Scan) (name : Xml.ElementName) :
    scan.push version name =
      { scan with
        path := ancestor version name :: scan.path
        reasons := scan.reasons + if scan.BeginsReason version name then 1 else 0 } :=
  push_eq scan name

/-- Entering an element does not decide whether it is a reason. -/
theorem Enters.beginsReason_iff {scan entered : Scan} {name : Xml.ElementName}
    (henters : Enters version scan name entered) :
    entered.BeginsReason version name ↔ scan.BeginsReason version name := by
  unfold BeginsReason
  cases henters with
  | operation hpath =>
      have hnone : Path.field? version (ancestor version name :: scan.path) = none :=
        field?_eq_none_of_length (by simp [hpath])
      simp [hnone]
  | _ => exact Iff.rfl

/-! ## What holds of every pass -/

theorem field?_eq_some_iff {scan : Scan} {field : FaultField} :
    scan.field? version = some field ↔
      scan.fault.isSome ∧ scan.path.field? version = some field := by
  unfold field?
  split
  · next hsome => simp [hsome]
  · next hnone => simp [hnone]

/-- What holds of a pass after any events: a fault comes with an operation, an open
reason was counted, and there is no text of a reason before the first one. -/
structure Regular (version : Version) (scan : Scan) : Prop where
  told : scan.fault.isSome → scan.operation ≠ none
  counted : scan.fault.isSome → Outside version .reason scan.path ∨ 1 ≤ scan.reasons
  silent : ∀ fault, scan.fault = some fault → scan.reasons = 0 → fault.reason = ""

/-- A reason that is open was counted. -/
theorem Regular.one_le {scan : Scan} (hregular : scan.Regular version)
    (hsome : scan.fault.isSome) (hreason : scan.path.field? version = some .reason) :
    1 ≤ scan.reasons :=
  (hregular.counted hsome).resolve_left fun houtside => houtside _ (List.suffix_refl _) hreason

theorem regular_start : Regular version start where
  told := nofun
  counted := nofun
  silent := nofun

theorem Enters.regular {scan entered : Scan} {name : Xml.ElementName}
    (henters : Enters version scan name entered) (hregular : scan.Regular version) :
    entered.Regular version := by
  cases henters with
  | operation hpath hbody hnone =>
      have houtside : Outside version .reason scan.path :=
        outside_of_length (by simp [hpath])
      have hfault : scan.fault = none := by
        by_contra hsome
        exact hregular.told (Option.isSome_iff_ne_none.mpr hsome) hnone
      refine ⟨fun _ => Option.some_ne_none _, fun _ => .inl houtside, fun fault hsome _ => ?_⟩
      split at hsome
      · cases hsome
        rfl
      · exact absurd (hfault.symm.trans hsome) (Option.some_ne_none fault).symm
  | root => exact ⟨hregular.told, hregular.counted, hregular.silent⟩
  | child => exact ⟨hregular.told, hregular.counted, hregular.silent⟩
  | indifferent => exact hregular

theorem Regular.push {scan : Scan} (hregular : scan.Regular version) (name : Xml.ElementName) :
    (scan.push version name).Regular version := by
  rw [push_eq_of_begins]
  refine ⟨hregular.told, fun hsome => ?_, fun fault hsome hzero => ?_⟩
  · by_cases hbegins : scan.BeginsReason version name
    · right
      simp [hbegins]
    · rw [if_neg hbegins]
      refine (hregular.counted hsome).imp_left fun houtside => ?_
      exact outside_cons_iff.mpr ⟨fun hfield => hbegins ⟨hsome, hfield⟩, houtside⟩
  · have hbefore : scan.reasons = 0 := Nat.eq_zero_of_add_eq_zero_right hzero
    exact hregular.silent fault hsome hbefore

theorem Steps.regular {scan next : Scan} {event : Xml.Event}
    (hsteps : Steps version scan event next) (hregular : scan.Regular version) :
    next.Regular version := by
  cases hsteps with
  | start henters => exact (henters.regular hregular).push _
  | empty henters => exact henters.regular hregular
  | close =>
      exact ⟨hregular.told, fun hsome => (hregular.counted hsome).imp_left Outside.tail,
        hregular.silent⟩
  | idle => exact hregular
  | @text _ _ field characters _ _ hfield =>
      rw [append_eq]
      refine ⟨fun hsome => hregular.told (by simpa using hsome),
        fun hsome => hregular.counted (by simpa using hsome), fun fault hfault hzero => ?_⟩
      obtain ⟨before, hbefore, rfl⟩ := Option.map_eq_some_iff.mp hfault
      have hsilent : before.reason = "" := hregular.silent before hbefore hzero
      cases field with
      | code => exact hsilent
      | reason =>
          obtain ⟨hsome, hreason⟩ := field?_eq_some_iff.mp hfield
          exact absurd hzero (Nat.ne_of_gt (hregular.one_le hsome hreason))

/-- The first reason is over: it was counted and none is open, or a second was counted. -/
def Passed (version : Version) (scan : Scan) : Prop :=
  Outside version .reason scan.path ∧ 1 ≤ scan.reasons ∨ 2 ≤ scan.reasons

/-- Once the first reason of a fault is over, it stays so. -/
theorem Steps.passed {scan next : Scan} {event : Xml.Event}
    (hsteps : Steps version scan event next) (htold : scan.operation ≠ none)
    (hsome : scan.fault.isSome) (hpassed : scan.Passed version) : next.Passed version := by
  cases hsteps with
  | @start name entered henters =>
      have hfault : entered.fault.isSome := by rwa [(henters.settled htold).2]
      have hcount : 1 ≤ scan.reasons := hpassed.elim And.right Nat.le_of_succ_le
      rw [push_eq_of_begins, henters.path_eq, henters.reasons_eq]
      by_cases hbegins : entered.BeginsReason version name
      · right
        simp only [hbegins, if_true]
        omega
      · rw [if_neg hbegins]
        refine hpassed.imp_left fun hbefore => ⟨outside_cons_iff.mpr ⟨fun hfield => ?_, hbefore.1⟩,
          hcount⟩
        exact hbegins ⟨hfault, by rw [henters.path_eq]; exact hfield⟩
  | empty henters =>
      unfold Passed
      rwa [henters.path_eq, henters.reasons_eq]
  | close => exact hpassed.imp_left fun hbefore => ⟨hbefore.1.tail, hbefore.2⟩
  | idle => exact hpassed
  | text =>
      rw [append_eq]
      exact hpassed

/-! ## The pass over the other spelling -/

/-- The pass that has counted some more reasons, and kept no text of a reason if one is
hidden. -/
def behind (missed : Nat) (hidden : Bool) (scan : Scan) : Scan :=
  { scan with
    fault := scan.fault.map fun fault => if hidden then fault.withoutReason else fault
    reasons := scan.reasons + missed }

/-- What makes a pass over the other spelling stay behind: once a reason was missed there
is a fault, and where none is hidden one was counted before the missed one. -/
structure Behind (version : Version) (missed : Nat) (hidden : Bool) (scan : Scan) : Prop where
  regular : scan.Regular version
  equal : missed = 0 → hidden = false
  faulty : missed ≠ 0 → scan.fault.isSome
  passed : missed ≠ 0 → hidden = false → scan.Passed version

theorem behind_zero (scan : Scan) : scan.behind 0 false = scan := by
  simp [behind]

section Behind

variable {missed : Nat} {hidden : Bool} {scan : Scan}

theorem behind_start : Behind version 0 false start where
  regular := regular_start
  equal _ := rfl
  faulty hmissed := absurd rfl hmissed
  passed hmissed := absurd rfl hmissed

theorem enterRoot_behind (name : Xml.ElementName) :
    (scan.behind missed hidden).enterRoot version name =
      (scan.enterRoot version name).map (behind missed hidden) := by
  unfold enterRoot
  by_cases hsaw : scan.sawEnvelope = true
  · simp [behind, hsaw, Except.map]
  · by_cases hlocal : name.localName = "Envelope"
    · cases hspace : name.space with
      | none => simp [behind, hsaw, hlocal, Except.map]
      | some uri =>
          by_cases huri : uri = version.uriBytes <;>
            simp [behind, hsaw, hlocal, huri, Except.map]
    · simp [behind, hsaw, hlocal, Except.map]

theorem Behind.enter_eq (hbehind : scan.Behind version missed hidden) (name : Xml.ElementName) :
    (scan.behind missed hidden).enter version name =
      (scan.enter version name).map (behind missed hidden) := by
  have hsame : (scan.behind missed hidden).path = scan.path := rfl
  rcases scan.place_cases with hpath | ⟨root, hpath⟩ | ⟨body, root, hpath, hbody, hnone⟩ | hplace
  · simp only [enter, hsame, hpath]
    exact enterRoot_behind name
  · rw [enter_child hpath, enter_child (hsame.trans hpath)]
    rfl
  · -- The first element of a body still begins, so no reason can have been missed.
    have hmissed : missed = 0 := by
      by_contra hmissed
      exact hbehind.regular.told (hbehind.faulty hmissed) hnone
    obtain rfl := hmissed
    obtain rfl : hidden = false := hbehind.equal rfl
    rw [behind_zero, enter_operation hpath hbody hnone]
    simp [Except.map, behind_zero]
  · have hplace' : (scan.behind missed hidden).Indifferent := hplace.after rfl fun _ => rfl
    rw [enter_indifferent hplace, enter_indifferent hplace']
    rfl

theorem beginsReason_behind {name : Xml.ElementName} :
    (scan.behind missed hidden).BeginsReason version name ↔ scan.BeginsReason version name := by
  simp [BeginsReason, behind]

theorem push_behind (name : Xml.ElementName) :
    (scan.behind missed hidden).push version name =
      (scan.push version name).behind missed hidden := by
  rw [push_eq_of_begins, push_eq_of_begins]
  simp only [beginsReason_behind]
  simp only [behind, mk.injEq, true_and]
  omega

theorem Behind.append_eq (hbehind : scan.Behind version missed hidden) {field : FaultField}
    (hfield : scan.field? version = some field) (text : String) :
    (scan.behind missed hidden).append field text =
      (scan.append field text).behind missed hidden := by
  obtain ⟨hsome, hhere⟩ := field?_eq_some_iff.mp hfield
  obtain ⟨fault, hfault⟩ := Option.isSome_iff_exists.mp hsome
  rw [Scan.append_eq, Scan.append_eq]
  simp only [behind, hfault, Option.map_some, mk.injEq, Option.some.injEq, true_and, and_true]
  cases field with
  | code => cases hidden <;> rfl
  | reason =>
      have hcounted : 1 ≤ scan.reasons := hbehind.regular.one_le hsome hhere
      by_cases hmissed : missed = 0
      · obtain rfl := hmissed
        rw [hbehind.equal rfl]
        rfl
      · -- The pass behind has counted more than one reason, so it keeps nothing.
        have hmany : ¬ scan.reasons + missed ≤ 1 := by omega
        cases hidden with
        | true =>
            simp only [extend, hmany, if_true, if_false]
            split <;> rfl
        | false =>
            have houtside : ¬ Outside version .reason scan.path :=
              fun houtside => houtside _ (List.suffix_refl _) hhere
            have hpassed : 2 ≤ scan.reasons :=
              (hbehind.passed hmissed rfl).resolve_left fun hbefore => houtside hbefore.1
            have hlater : ¬ scan.reasons ≤ 1 := by omega
            simp [extend, hmany, hlater]

theorem field?_behind : (scan.behind missed hidden).field? version = scan.field? version := by
  simp [field?, behind]

/-- An event that both passes read leaves the one behind the other. -/
theorem Behind.step_eq (hbehind : scan.Behind version missed hidden) (event : Xml.Event) :
    (scan.behind missed hidden).step version event =
      (scan.step version event).map (behind missed hidden) := by
  cases event with
  | start name =>
      simp only [step, hbehind.enter_eq]
      cases henter : scan.enter version name with
      | error error => rfl
      | ok entered => exact congrArg Except.ok (push_behind name)
  | empty name => exact hbehind.enter_eq name
  | close => rfl
  | text content =>
      simp only [step, field?_behind]
      cases hfield : scan.field? version with
      | none => rfl
      | some field =>
          cases hdecode : Xml.unescape content with
          | error cause => rfl
          | ok text => exact congrArg Except.ok (hbehind.append_eq hfield text)
  | cdata content =>
      simp only [step, field?_behind]
      cases hfield : scan.field? version with
      | none => rfl
      | some field =>
          cases hdecode : Utf8.decode content with
          | error cause => rfl
          | ok text => exact congrArg Except.ok (hbehind.append_eq hfield text)
  | doctype => rfl
  | other => rfl

theorem Behind.after (hbehind : scan.Behind version missed hidden) {event : Xml.Event}
    {next : Scan} (hsteps : Steps version scan event next) :
    next.Behind version missed hidden := by
  refine ⟨hsteps.regular hbehind.regular, hbehind.equal, fun hmissed => ?_,
    fun hmissed hshown => ?_⟩
  · have htold := hbehind.regular.told (hbehind.faulty hmissed)
    rw [(hsteps.settled htold).2]
    exact hbehind.faulty hmissed
  · have htold := hbehind.regular.told (hbehind.faulty hmissed)
    exact hsteps.passed htold (hbehind.faulty hmissed) (hbehind.passed hmissed hshown)

/-! ## An empty tag in two -/

/-- An element of this name that begins here is the first reason of the fault. -/
def AwaitsReason (version : Version) (scan : Scan) (name : Xml.ElementName) : Prop :=
  scan.BeginsReason version name ∧ scan.reasons = 0

instance (version : Version) (scan : Scan) (name : Xml.ElementName) :
    Decidable (scan.AwaitsReason version name) :=
  inferInstanceAs (Decidable (_ ∧ _))

/-- An element of two tags and no content is counted if it is a reason, and that is all
that it does beside what its name does. -/
theorem run_apart (scan : Scan) (name : Xml.ElementName) :
    scan.run version [.start name, .close] =
      (scan.enter version name).map fun entered =>
        { entered with
          reasons := entered.reasons + if scan.BeginsReason version name then 1 else 0 } := by
  cases henter : scan.enter version name with
  | error error => simp [run, step, henter, bind, Except.bind, Except.map]
  | ok entered =>
      have henters : Enters version scan name entered := enter_eq_ok_iff.mp henter
      simp only [run, step, henter, bind, Except.bind, pure, Except.pure, Except.map,
        push_eq_of_begins, henters.beginsReason_iff, List.tail_cons]

theorem indifferent_of_length (hlength : 3 ≤ scan.path.length) :
    scan.Indifferent := by
  refine ⟨by omega, fun body root hpath => ?_⟩
  rw [hpath] at hlength
  simp at hlength

/-- An element at a field is entered without a change. -/
theorem indifferent_of_field?_cons {field : FaultField} {innermost : Ancestor}
    (hfield : Path.field? version (innermost :: scan.path) = some field) :
    scan.Indifferent := by
  have hlength := FieldText.length_of_field? hfield
  have htrail := field.two_le_length_trail version
  rw [List.length_cons] at hlength
  exact indifferent_of_length (by omega)

theorem BeginsReason.indifferent {name : Xml.ElementName}
    (hbegins : scan.BeginsReason version name) : scan.Indifferent :=
  indifferent_of_field?_cons hbegins.2

/-- A reason that is written by one tag is missed by the pass that goes on behind.  If it
is the first one, the pass keeps no text of the next. -/
theorem Behind.missOne (hbehind : scan.Behind version missed hidden) {name : Xml.ElementName}
    (hbegins : scan.BeginsReason version name) :
    scan.Behind version (missed + 1) (hidden || decide (scan.reasons = 0)) ∧
      { scan.behind missed hidden with reasons := scan.reasons + missed + 1 } =
        scan.behind (missed + 1) (hidden || decide (scan.reasons = 0)) := by
  obtain ⟨hsome, hfield⟩ := hbegins
  refine ⟨⟨hbehind.regular, fun hzero => absurd hzero (Nat.succ_ne_zero missed), fun _ => hsome,
    fun _ hshown => ?_⟩, ?_⟩
  · rw [Bool.or_eq_false_iff, decide_eq_false_iff_not] at hshown
    exact .inl ⟨outside_of_field?_cons hfield, Nat.one_le_iff_ne_zero.mpr hshown.2⟩
  · obtain ⟨fault, hfault⟩ := Option.isSome_iff_exists.mp hsome
    simp only [behind, hfault, Option.map_some, mk.injEq, Option.some.injEq, true_and, and_true,
      Nat.add_assoc]
    by_cases hzero : scan.reasons = 0
    · -- Nothing was kept of a reason yet, so hiding it changes nothing.
      have hsilent : fault.withoutReason = fault := by
        obtain ⟨code, reason⟩ := fault
        rw [Fault.withoutReason, ← hbehind.regular.silent _ hfault hzero]
      simp [hzero, hsilent]
    · simp [hzero]

/-- However an event is spelled, the pass over the other spelling stays behind. -/
theorem Behind.spelled (hbehind : scan.Behind version missed hidden) (event : Xml.Event)
    (apart : Bool) :
    ∃ missed' hidden',
      (hidden' = true ↔ hidden = true ∨
        apart = true ∧ ∃ name, event = .empty name ∧ scan.AwaitsReason version name) ∧
      (∀ next, Steps version scan event next → next.Behind version missed' hidden') ∧
      (scan.behind missed hidden).run version (event.spelled apart) =
        (scan.step version event).map (behind missed' hidden') := by
  by_cases hmisses : apart = true ∧ ∃ name, event = .empty name ∧ scan.BeginsReason version name
  · obtain ⟨rfl, name, rfl, hbegins⟩ := hmisses
    obtain ⟨hmissed, hequal⟩ := hbehind.missOne hbegins
    have hplace : scan.Indifferent := hbegins.indifferent
    have hstep : scan.step version (.empty name) = .ok scan := enter_indifferent hplace
    refine ⟨missed + 1, hidden || decide (scan.reasons = 0), ?_, fun next hsteps => ?_, ?_⟩
    · simp [AwaitsReason, hbegins]
    · obtain rfl : scan = next := Except.ok.inj (hstep.symm.trans hsteps.step_eq)
      exact hmissed
    · show (scan.behind missed hidden).run version [.start name, .close] = _
      rw [run_apart, hstep, hbehind.enter_eq, enter_indifferent hplace]
      simp only [Except.map, beginsReason_behind, hbegins, if_true]
      exact congrArg Except.ok hequal
  · refine ⟨missed, hidden, ?_, fun next hsteps => hbehind.after hsteps, ?_⟩
    · have hnone : ¬ (apart = true ∧ ∃ name, event = .empty name ∧
          scan.AwaitsReason version name) := fun ⟨hapart, name, hevent, hawaits⟩ =>
        hmisses ⟨hapart, name, hevent, hawaits.1⟩
      simp [hnone]
    · by_cases hsplit : apart = true ∧ ∃ name, event = .empty name
      · -- The element is no reason, so that it is pushed and popped leaves no trace.
        obtain ⟨rfl, name, rfl⟩ := hsplit
        have hother : ¬ scan.BeginsReason version name := fun hbegins =>
          hmisses ⟨rfl, name, rfl, hbegins⟩
        show (scan.behind missed hidden).run version [.start name, .close] = _
        rw [run_apart, hbehind.enter_eq]
        simp only [beginsReason_behind, hother, if_false, Nat.add_zero]
        show ((scan.enter version name).map _).map id = _
        rw [Except.map_id]
        rfl
      · have hone : event.spelled apart = [event] := by
          unfold Xml.Event.spelled
          split
          · next name => exact absurd ⟨rfl, name, rfl⟩ hsplit
          · rfl
        rw [hone, run_singleton, hbehind.step_eq]

end Behind

/-! ## Runs -/

/-- Among some events, an empty tag that is chosen is the first reason of the fault. -/
def HidesFrom (version : Version) (chosen : Nat → Bool) (scan : Scan) (events : List Xml.Event) :
    Prop :=
  ∃ before name after middle, events = before ++ .empty name :: after ∧
    chosen before.length = true ∧ scan.run version before = .ok middle ∧
      middle.AwaitsReason version name

theorem hidesFrom_cons_iff {chosen : Nat → Bool} {scan : Scan} {event : Xml.Event}
    {rest : List Xml.Event} :
    HidesFrom version chosen scan (event :: rest) ↔
      (chosen 0 = true ∧ ∃ name, event = .empty name ∧ scan.AwaitsReason version name) ∨
        ∃ next, Steps version scan event next ∧
          HidesFrom version (chosen ∘ Nat.succ) next rest := by
  constructor
  · rintro ⟨before, name, after, middle, hevents, hchosen, hrun, hawaits⟩
    cases before with
    | nil =>
        cases hevents
        cases hrun
        exact .inl ⟨hchosen, name, rfl, hawaits⟩
    | cons first before =>
        cases hevents
        obtain ⟨next, hsteps, hrest⟩ := run_cons_eq_ok_iff.mp hrun
        exact .inr ⟨next, hsteps, before, name, after, middle, rfl, hchosen, hrest, hawaits⟩
  · rintro (⟨hchosen, name, rfl, hawaits⟩ | ⟨next, hsteps, hides⟩)
    · exact ⟨[], name, rest, scan, rfl, hchosen, rfl, hawaits⟩
    · obtain ⟨before, name, after, middle, rfl, hchosen, hrun, hawaits⟩ := hides
      exact ⟨event :: before, name, after, middle, rfl, hchosen,
        run_cons_eq_ok_iff.mpr ⟨next, hsteps, hrun⟩, hawaits⟩

theorem Behind.run_respell {missed : Nat} {hidden : Bool} {scan : Scan}
    (hbehind : scan.Behind version missed hidden) (chosen : Nat → Bool)
    (events : List Xml.Event) :
    ∃ missed' hidden',
      (hidden' = true ↔ hidden = true ∨ HidesFrom version chosen scan events) ∧
      (scan.behind missed hidden).run version (Xml.respell chosen events) =
        (scan.run version events).map (behind missed' hidden') := by
  induction events generalizing missed hidden scan chosen with
  | nil =>
      refine ⟨missed, hidden, ?_, rfl⟩
      simp [HidesFrom]
  | cons event rest ih =>
      obtain ⟨missed₁, hidden₁, hhides, hafter, hspelled⟩ := hbehind.spelled event (chosen 0)
      rw [Xml.respell, run_append, hspelled, run, hidesFrom_cons_iff, ← or_assoc, ← hhides]
      cases hstep : scan.step version event with
      | error error =>
          refine ⟨missed₁, hidden₁, ?_, rfl⟩
          have hnone : ¬ ∃ next, Steps version scan event next ∧
              HidesFrom version (chosen ∘ Nat.succ) next rest := by
            rintro ⟨next, hsteps, -⟩
            rw [hsteps.step_eq] at hstep
            cases hstep
          simp [hnone]
      | ok next =>
          have hsteps : Steps version scan event next := steps_of_step hstep
          obtain ⟨missed₂, hidden₂, hhides₂, hrun⟩ := ih (hafter next hsteps) (chosen ∘ Nat.succ)
          refine ⟨missed₂, hidden₂, ?_, hrun⟩
          rw [hhides₂]
          refine or_congr_right ⟨fun hides => ⟨next, hsteps, hides⟩, ?_⟩
          rintro ⟨other, hother, hides⟩
          obtain rfl : next = other := Except.ok.inj (hstep.symm.trans hother.step_eq)
          exact hides

theorem trimFault_withoutReason (fault : Fault) :
    trimFault fault.withoutReason = (trimFault fault).withoutReason := by
  have hblank : Text.trim "" = "" := by decide
  simp [trimFault, Fault.withoutReason, hblank]

theorem finish_behind (missed : Nat) (hidden : Bool) (scan : Scan) :
    (scan.behind missed hidden).finish =
      scan.finish.map fun envelope => if hidden then envelope.withoutReason else envelope := by
  have hfault : (scan.behind missed hidden).fault.map trimFault =
      if hidden then (scan.fault.map trimFault).map Fault.withoutReason
      else scan.fault.map trimFault := by
    cases hfault : scan.fault with
    | none => cases hidden <;> simp [behind, hfault]
    | some fault => cases hidden <;> simp [behind, hfault, trimFault_withoutReason]
  unfold finish
  rw [hfault]
  show (if scan.path ≠ [] then _ else if !scan.sawEnvelope then _ else
    if !scan.sawBody then _ else Except.ok (Envelope.mk scan.operation _)) = _
  split
  · rfl
  · split
    · rfl
    · split
      · rfl
      · cases hidden <;> rfl

end Scan

/-- An element of this name that begins after some events is a reason of the fault. -/
def IsReason (version : Version) (before : List Xml.Event) (name : Xml.ElementName) : Prop :=
  CarriesFault version before ∧
    Path.field? version (Scan.ancestor version name :: Path.ofEvents version before) =
      some .reason

/-- One of the empty tags that are chosen is a reason of the fault, and no reason was
written by two tags before it. -/
def HidesReason (version : Version) (chosen : Nat → Bool) (events : List Xml.Event) : Prop :=
  ∃ before name after, events = before ++ .empty name :: after ∧ chosen before.length = true ∧
    IsReason version before name ∧
    Each (fun earlier event => ∀ other, event = .start other → ¬ IsReason version earlier other)
      before

namespace Scan

theorem beginsReason_iff_of_run {before : List Xml.Event} {scan : Scan}
    (hrun : start.run version before = .ok scan) (name : Xml.ElementName) :
    scan.BeginsReason version name ↔ IsReason version before name := by
  unfold BeginsReason IsReason
  rw [carriesFault_iff_of_run hrun, path_of_run hrun]

theorem reasons_eq_zero_iff_of_run {before : List Xml.Event} {scan : Scan}
    (hrun : start.run version before = .ok scan) :
    scan.reasons = 0 ↔
      Each (fun earlier event =>
        ∀ other, event = .start other → ¬ IsReason version earlier other) before := by
  induction before using List.reverseRecOn generalizing scan with
  | nil =>
      cases hrun
      exact iff_of_true rfl each_nil
  | append_singleton before event ih =>
      obtain ⟨middle, hbefore, hlast⟩ := run_concat_eq_ok_iff.mp hrun
      rw [each_concat_iff, ← ih hbefore]
      cases hlast with
      | @start name entered henters =>
          have hbegins : entered.BeginsReason version name ↔ IsReason version before name :=
            henters.beginsReason_iff.trans (beginsReason_iff_of_run hbefore name)
          rw [push_eq_of_begins, henters.reasons_eq]
          by_cases hreason : IsReason version before name <;> simp [hbegins, hreason]
      | empty henters => simp [henters.reasons_eq]
      | close => simp
      | @idle leaf _ hevent => cases leaf <;> simp [hevent, Xml.Leaf.event]
      | @text leaf _ _ _ hevent => cases leaf <;> simp [hevent, append_eq, Xml.Leaf.event]

theorem awaitsReason_iff_of_run {before : List Xml.Event} {scan : Scan}
    (hrun : start.run version before = .ok scan) (name : Xml.ElementName) :
    scan.AwaitsReason version name ↔
      IsReason version before name ∧
        Each (fun earlier event =>
          ∀ other, event = .start other → ¬ IsReason version earlier other) before := by
  rw [AwaitsReason, beginsReason_iff_of_run hrun, reasons_eq_zero_iff_of_run hrun]

theorem HidesFrom.hidesReason {chosen : Nat → Bool} {events : List Xml.Event}
    (hides : HidesFrom version chosen start events) : HidesReason version chosen events := by
  obtain ⟨before, name, after, middle, hevents, hchosen, hrun, hawaits⟩ := hides
  exact ⟨before, name, after, hevents, hchosen, (awaitsReason_iff_of_run hrun name).mp hawaits⟩

/-- In a document that is read to its end, what hides a reason is met. -/
theorem hidesFrom_of_run {chosen : Nat → Bool} {events : List Xml.Event} {final : Scan}
    (hrun : start.run version events = .ok final) (hides : HidesReason version chosen events) :
    HidesFrom version chosen start events := by
  obtain ⟨before, name, after, rfl, hchosen, hawaits⟩ := hides
  obtain ⟨middle, hbefore, -⟩ := run_append_eq_ok_iff.mp hrun
  exact ⟨before, name, after, middle, rfl, hchosen, hbefore,
    (awaitsReason_iff_of_run hbefore name).mpr hawaits⟩

end Scan

/-- The two spellings are read alike, but for a reason that is hidden from one of them. -/
theorem exists_ofDocument_respell (version : Version) (chosen : Nat → Bool)
    (events : List Xml.Event) (failure : Option Xml.Error) :
    ∃ hidden : Bool, (hidden = true ↔ Scan.HidesFrom version chosen Scan.start events) ∧
      Envelope.ofDocument version ⟨Xml.respell chosen events, failure⟩ =
        (Envelope.ofDocument version ⟨events, failure⟩).map fun envelope =>
          if hidden then envelope.withoutReason else envelope := by
  have hbehind : Scan.Behind version 0 false Scan.start := Scan.behind_start
  obtain ⟨missed, hidden, hhides, hrespelled⟩ := hbehind.run_respell chosen events
  rw [Scan.behind_zero] at hrespelled
  refine ⟨hidden, by simpa using hhides, ?_⟩
  unfold Envelope.ofDocument
  rw [hrespelled]
  cases hrun : Scan.start.run version events with
  | error error => rfl
  | ok scan =>
      cases failure with
      | none => exact Scan.finish_behind missed hidden scan
      | some cause => rfl

/-- **What an empty tag in two changes.**  Writing any empty tags of a document as a start
and an end leaves what the document is read as, or the error that it is refused with, as
it was, unless one of them is a reason of the fault and no reason was written by two tags
before it.  Then the fault loses the text of its reason, and nothing else changes. -/
theorem ofDocument_respell (version : Version) (chosen : Nat → Bool) (events : List Xml.Event)
    (failure : Option Xml.Error) :
    (¬ HidesReason version chosen events →
      Envelope.ofDocument version ⟨Xml.respell chosen events, failure⟩ =
        Envelope.ofDocument version ⟨events, failure⟩) ∧
    (HidesReason version chosen events →
      Envelope.ofDocument version ⟨Xml.respell chosen events, failure⟩ =
        (Envelope.ofDocument version ⟨events, failure⟩).map Envelope.withoutReason) := by
  obtain ⟨hidden, hhides, hread⟩ := exists_ofDocument_respell version chosen events failure
  constructor
  · intro hshown
    obtain rfl : hidden = false :=
      Bool.eq_false_iff.mpr fun hhidden => hshown (hhides.mp hhidden).hidesReason
    rw [hread]
    exact congrFun Except.map_id _
  · intro hreason
    cases hrun : Scan.start.run version events with
    | ok final =>
        obtain rfl : hidden = true := hhides.mpr (Scan.hidesFrom_of_run hrun hreason)
        exact hread
    | error error =>
        -- A document that is refused before its end is refused in both spellings.
        have hrefused : Envelope.ofDocument version ⟨events, failure⟩ = .error error := by
          simp [Envelope.ofDocument, hrun]
        rw [hread, hrefused]
        rfl

section TwoReasons

/-- A fault whose first reason is an empty tag, with another after it. -/
private def twoReasons : List Xml.Event :=
  [.start (Version.named .v1_2 "Envelope"), .start (Version.named .v1_2 "Body"),
    .start (Version.named .v1_2 "Fault"), .start (Version.named .v1_2 "Reason"),
    .empty (Version.named .v1_2 "Text"), .start (Version.named .v1_2 "Text"),
    .text (Bytes.ofAscii "b"), .close, .close, .close, .close, .close]

private def atFirstReason (place : Nat) : Bool := place = 4

theorem ofDocument_respell_twoReasons :
    HidesReason .v1_2 atFirstReason twoReasons ∧
      Envelope.ofDocument .v1_2 ⟨twoReasons, none⟩ = .ok ⟨some "Fault", some ⟨"", "b"⟩⟩ ∧
      Envelope.ofDocument .v1_2 ⟨Xml.respell atFirstReason twoReasons, none⟩ =
        .ok ⟨some "Fault", some ⟨"", ""⟩⟩ ∧
      Envelope.ofDocument .v1_2 ⟨Xml.respell (fun _ => false) twoReasons, none⟩ =
        .ok ⟨some "Fault", some ⟨"", "b"⟩⟩ := by
  have hread : Envelope.ofDocument .v1_2 ⟨twoReasons, none⟩ =
      .ok ⟨some "Fault", some ⟨"", "b"⟩⟩ := by decide
  have hides : HidesReason .v1_2 atFirstReason twoReasons := by
    refine ⟨twoReasons.take 4, _, twoReasons.drop 5, rfl, by decide, ?_⟩
    exact (Scan.awaitsReason_iff_of_run rfl _).mp (by decide)
  have hkeeps : ¬ HidesReason .v1_2 (fun _ => false) twoReasons := by
    rintro ⟨before, name, after, -, hchosen, -⟩
    cases hchosen
  refine ⟨hides, hread, ?_, ?_⟩
  · rw [(ofDocument_respell .v1_2 atFirstReason twoReasons none).2 hides, hread]
    rfl
  · rw [(ofDocument_respell .v1_2 (fun _ => false) twoReasons none).1 hkeeps, hread]

end TwoReasons

end Soap

end KerberosHttp
