import KerberosHttp.Proofs.Soap.FieldElement

/-!
# Two documents that differ in their leaves

A leaf moves nothing in a pass but the text of the fault.  So of two documents with the
same tags, whatever stands between them, the pass finds the same but for that text, as
long as all of it can be decoded.

## Strategy

`wordless` is the pass, or what it found, without the text of the fault.  Nothing else of a
pass depends on that text (`step_wordless`), so two passes that agree without it go on to
agree without it.  `Varies` says that two documents differ only in leaves that are free to
differ, and `Varies.ofDocument_wordless` that the pass then finds the same but for the text.
-/

namespace KerberosHttp.Soap

variable {version : Version}

/-- Two outcomes that agree in a part of what they found are errors both, or neither is. -/
theorem outcomes_of_map_eq {ε α β : Type} {first second : Except ε α} {part : α → β}
    (hsame : first.map part = second.map part) :
    (∃ error, first = .error error ∧ second = .error error) ∨
      ∃ found other, first = .ok found ∧ second = .ok other ∧ part found = part other := by
  cases first with
  | error error =>
      cases second with
      | error error' =>
          obtain rfl : error = error' := Except.error.inj hsame
          exact .inl ⟨error, rfl, rfl⟩
      | ok other => cases hsame
  | ok found =>
      cases second with
      | error error => cases hsame
      | ok other => exact .inr ⟨found, other, rfl, rfl, Except.ok.inj hsame⟩

/-- What an envelope says, without the text of its fault. -/
def Envelope.wordless (envelope : Envelope) : Envelope :=
  { envelope with fault := envelope.fault.map fun _ => ⟨"", ""⟩ }

namespace Scan

/-- The pass without the text of its fault. -/
def wordless (scan : Scan) : Scan :=
  { scan with fault := scan.fault.map fun _ => ⟨"", ""⟩ }

@[simp] theorem wordless_path (scan : Scan) : scan.wordless.path = scan.path := rfl

@[simp] theorem wordless_wordless (scan : Scan) : scan.wordless.wordless = scan.wordless := by
  simp [wordless, Function.comp_def]

@[simp] theorem wordless_append (scan : Scan) (field : FaultField) (text : String) :
    (scan.append field text).wordless = scan.wordless := by
  simp [append_eq, wordless, Function.comp_def]

@[simp] theorem field?_wordless (scan : Scan) :
    scan.wordless.field? version = scan.field? version := by
  simp [field?, wordless]

theorem enterRoot_wordless (scan : Scan) (name : Xml.ElementName) :
    scan.wordless.enterRoot version name = (scan.enterRoot version name).map wordless := by
  unfold enterRoot
  by_cases hsaw : scan.sawEnvelope = true
  · simp [wordless, hsaw, Except.map]
  · by_cases hlocal : name.localName = "Envelope"
    · cases hspace : name.space with
      | none => simp [wordless, hsaw, hlocal, Except.map]
      | some uri =>
          by_cases huri : uri = version.uriBytes <;>
            simp [wordless, hsaw, hlocal, huri, Except.map]
    · simp [wordless, hsaw, hlocal, Except.map]

theorem enter_wordless (scan : Scan) (name : Xml.ElementName) :
    scan.wordless.enter version name = (scan.enter version name).map wordless := by
  rcases scan.place_cases with hpath | ⟨root, hpath⟩ | ⟨body, root, hpath, hbody, hnone⟩ | hplace
  · simp only [enter, wordless_path, hpath]
    exact enterRoot_wordless scan name
  · rw [enter_child hpath, enter_child ((wordless_path scan).trans hpath)]
    rfl
  · rw [enter_operation hpath hbody hnone,
      enter_operation ((wordless_path scan).trans hpath) hbody hnone]
    by_cases hname : IsNamed version "Fault" name <;> simp [wordless, hname, Except.map]
  · have hplace' : scan.wordless.Indifferent := hplace.after rfl fun _ => rfl
    rw [enter_indifferent hplace, enter_indifferent hplace']
    rfl

theorem push_wordless (scan : Scan) (name : Xml.ElementName) :
    scan.wordless.push version name = (scan.push version name).wordless := by
  simp [push_eq, wordless]

/-- What a step does but for the text of the fault does not depend on that text. -/
theorem step_wordless (scan : Scan) (event : Xml.Event) :
    (scan.wordless.step version event).map wordless = (scan.step version event).map wordless := by
  cases event with
  | start name =>
      simp only [step, enter_wordless]
      cases henter : scan.enter version name with
      | error error => rfl
      | ok entered =>
          refine congrArg Except.ok ?_
          rw [push_wordless, wordless_wordless]
  | empty name =>
      simp only [step, enter_wordless]
      cases henter : scan.enter version name with
      | error error => rfl
      | ok entered => exact congrArg Except.ok (wordless_wordless entered)
  | close => exact congrArg Except.ok (wordless_wordless { scan with path := scan.path.tail })
  | text content =>
      simp only [step, field?_wordless]
      cases hfield : scan.field? version with
      | none => exact congrArg Except.ok (wordless_wordless scan)
      | some field => cases hdecode : Xml.unescape content <;> simp [Except.map]
  | cdata content =>
      simp only [step, field?_wordless]
      cases hfield : scan.field? version with
      | none => exact congrArg Except.ok (wordless_wordless scan)
      | some field => cases hdecode : Utf8.decode content <;> simp [Except.map]
  | doctype => rfl
  | other => exact congrArg Except.ok (wordless_wordless scan)

/-- Two passes that agree but for the text of the fault still do after an event. -/
theorem step_congr_wordless (version : Version) {scan other : Scan}
    (hagree : scan.wordless = other.wordless) (event : Xml.Event) :
    (scan.step version event).map wordless = (other.step version event).map wordless := by
  rw [← step_wordless scan, hagree, step_wordless other]

theorem finish_wordless (scan : Scan) :
    scan.wordless.finish = scan.finish.map Envelope.wordless := by
  have hblank : trimFault ⟨"", ""⟩ = ⟨"", ""⟩ := by decide
  have hfault : scan.wordless.fault.map trimFault =
      (scan.fault.map trimFault).map fun _ => ⟨"", ""⟩ := by
    cases hfault : scan.fault <;> simp [wordless, hfault, hblank]
  unfold finish
  rw [hfault]
  show (if scan.path ≠ [] then _ else if !scan.sawEnvelope then _ else
    if !scan.sawBody then _ else Except.ok (Envelope.mk scan.operation _)) = _
  split
  · rfl
  · split
    · rfl
    · split <;> rfl

/-- A pass that agrees but for the text of the fault ends alike. -/
theorem finish_of_wordless {scan other : Scan} {envelope : Envelope}
    (hagree : other.wordless = scan.wordless) (hfinish : scan.finish = .ok envelope) :
    other.finish = .ok { envelope with fault := other.fault.map trimFault } := by
  obtain ⟨hpath, hsaw, hbody, rfl⟩ := finish_eq_ok_iff.mp hfinish
  have hpath' : other.wordless.path = scan.wordless.path := by rw [hagree]
  have hsaw' : other.wordless.sawEnvelope = scan.wordless.sawEnvelope := by rw [hagree]
  have hbody' : other.wordless.sawBody = scan.wordless.sawBody := by rw [hagree]
  have hoperation : other.wordless.operation = scan.wordless.operation := by rw [hagree]
  exact finish_eq_ok_iff.mpr ⟨hpath'.trans hpath, hsaw'.trans hsaw, hbody'.trans hbody,
    congrArg (Envelope.mk · (other.fault.map trimFault)) hoperation.symm⟩

end Scan

/-! ## Documents that differ in leaves -/

/-- Two documents that are the same from a path on but for leaves, and only for those that
are free to differ at their place: such a leaf may stand in the one and not in the other. -/
inductive Varies (version : Version) (free : Path → Xml.Leaf → Prop) :
    Path → List Xml.Event → List Xml.Event → Prop
  | nil {path : Path} : Varies version free path [] []
  | both {path : Path} {event : Xml.Event} {events others : List Xml.Event}
      (hrest : Varies version free (path.after version event) events others) :
      Varies version free path (event :: events) (event :: others)
  | left {path : Path} {leaf : Xml.Leaf} {events others : List Xml.Event}
      (hfree : free path leaf) (hrest : Varies version free path events others) :
      Varies version free path (leaf.event :: events) others
  | right {path : Path} {leaf : Xml.Leaf} {events others : List Xml.Event}
      (hfree : free path leaf) (hrest : Varies version free path events others) :
      Varies version free path events (leaf.event :: others)

namespace Varies

variable {free : Path → Xml.Leaf → Prop} {path : Path} {events others : List Xml.Event}

theorem refl (path : Path) (events : List Xml.Event) : Varies version free path events events := by
  induction events generalizing path with
  | nil => exact .nil
  | cons event rest ih => exact .both (ih _)

/-- Behind a common beginning. -/
theorem append_left {before : List Xml.Event}
    (hvaries : Varies version free (before.foldl (Path.after version) path) events others) :
    Varies version free path (before ++ events) (before ++ others) := by
  induction before generalizing path with
  | nil => exact hvaries
  | cons event before ih => exact .both (ih hvaries)

end Varies

namespace Scan

/-- A leaf that can be decoded changes no more than the text of the fault. -/
theorem exists_step_leaf_wordless (version : Version) (scan : Scan) {leaf : Xml.Leaf}
    (hleaf : leaf ≠ .doctype) (hdecodes : leaf.event.characters? ≠ none) :
    ∃ next, scan.step version leaf.event = .ok next ∧ next.wordless = scan.wordless := by
  obtain ⟨next, hsteps⟩ := exists_steps_leaf version scan hleaf hdecodes
  refine ⟨next, hsteps.step_eq, ?_⟩
  obtain ⟨change, rfl⟩ := hsteps.of_leaf
  simp [wordless, Function.comp_def]

/-- Passes over documents that differ in leaves which can be decoded agree but for the text
of the fault. -/
theorem run_wordless_of_varies {free : Path → Xml.Leaf → Prop} {path : Path}
    {events others : List Xml.Event}
    (hfree : ∀ path leaf, free path leaf → leaf ≠ .doctype ∧ leaf.event.characters? ≠ none)
    (hvaries : Varies version free path events others) {scan other : Scan}
    (hagree : scan.wordless = other.wordless) :
    (scan.run version events).map wordless = (other.run version others).map wordless := by
  induction hvaries generalizing scan other with
  | nil => exact congrArg Except.ok hagree
  | @both _ event events others _ ih =>
      rw [run, run]
      rcases outcomes_of_map_eq (step_congr_wordless version hagree event) with
        ⟨error, hfirst, hsecond⟩ | ⟨next, next', hfirst, hsecond, hnext⟩
      · rw [hfirst, hsecond]
      · rw [hfirst, hsecond]
        exact ih hnext
  | @left _ leaf _ _ hleaf _ ih =>
      obtain ⟨hdoctype, hdecodes⟩ := hfree _ leaf hleaf
      obtain ⟨next, hstep, hnext⟩ := exists_step_leaf_wordless version scan hdoctype hdecodes
      rw [run, hstep]
      exact ih (hnext.trans hagree)
  | @right _ leaf _ _ hleaf _ ih =>
      obtain ⟨hdoctype, hdecodes⟩ := hfree _ leaf hleaf
      obtain ⟨next, hstep, hnext⟩ := exists_step_leaf_wordless version other hdoctype hdecodes
      rw [run, hstep]
      exact ih (hagree.trans hnext.symm)

/-- A pass goes on whatever the text of the fault is. -/
theorem exists_run_of_wordless {scan other final : Scan} {events : List Xml.Event}
    (hagree : scan.wordless = other.wordless) (hrun : scan.run version events = .ok final) :
    ∃ final', other.run version events = .ok final' ∧ final'.wordless = final.wordless := by
  have hvaries : Varies version (fun _ _ => False) scan.path events events := .refl _ _
  have hsame : (scan.run version events).map wordless = (other.run version events).map wordless :=
    run_wordless_of_varies nofun hvaries hagree
  rcases outcomes_of_map_eq hsame with
    ⟨error, hfirst, -⟩ | ⟨found, final', hfirst, hsecond, hfinal⟩
  · cases hrun.symm.trans hfirst
  · obtain rfl := Except.ok.inj (hrun.symm.trans hfirst)
    exact ⟨final', hsecond, hfinal.symm⟩

end Scan

theorem Varies.ofDocument_wordless {free : Path → Xml.Leaf → Prop} {events others : List Xml.Event}
    (hfree : ∀ path leaf, free path leaf → leaf ≠ .doctype ∧ leaf.event.characters? ≠ none)
    (hvaries : Varies version free [] events others) (failure : Option Xml.Error) :
    (Envelope.ofDocument version ⟨others, failure⟩).map Envelope.wordless =
      (Envelope.ofDocument version ⟨events, failure⟩).map Envelope.wordless := by
  have hrun : (Scan.start.run version events).map Scan.wordless =
      (Scan.start.run version others).map Scan.wordless :=
    Scan.run_wordless_of_varies hfree hvaries rfl
  unfold Envelope.ofDocument
  rcases outcomes_of_map_eq hrun with
    ⟨error, hfirst, hsecond⟩ | ⟨scan, other, hfirst, hsecond, hagree⟩
  · rw [hfirst, hsecond]
  · rw [hfirst, hsecond]
    cases failure with
    | none =>
        show other.finish.map _ = scan.finish.map _
        rw [← Scan.finish_wordless, ← Scan.finish_wordless, hagree]
    | some cause => rfl

end KerberosHttp.Soap
