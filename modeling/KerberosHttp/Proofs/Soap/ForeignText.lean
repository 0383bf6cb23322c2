import KerberosHttp.Proofs.Soap.FaultCode
import KerberosHttp.Proofs.Soap.Variation

/-!
# Text in another name space

The pass finds a fault by its name and its name space, but the fields of the fault by their
names alone.  An element of another name space that is named like a field is therefore read
as one.

## Strategy

Text in an element of another name space, or further in than one, never changes whether a
document is an envelope, what its operation is and whether it has a fault
(`Varies.ofDocument_wordless`).  It changes nothing at all if every element whose text is
kept is in the name space of the envelope: then an open element of another name space that
is named like a field is a reason after the first one (`ForeignUnkept`), and of that no text
is kept.  Otherwise one more character in that element shows in the fault.

## Main statement

* `foreignText_inert_iff`: text in another name space changes nothing exactly if no element
  whose text is kept stands there.
-/

namespace KerberosHttp.Soap

/-- Whether a path ends in an element that is not in the name space of the envelope, or
leads through one further in than the children of the root. -/
def Path.isForeign (path : Path) : Bool :=
  path.head?.any (fun innermost => !innermost.inEnvelope) ||
    path.dropLast.dropLast.any fun ancestor => !ancestor.inEnvelope

/-- A leaf that can be decoded, at a place that is not in the name space of the envelope. -/
structure ForeignText (path : Path) (leaf : Xml.Leaf) : Prop where
  foreign : path.isForeign = true
  plain : leaf ≠ .doctype
  readable : leaf.event.characters? ≠ none

variable {version : Version}

/-- The text of an element of this name that begins after some events is kept: it is a code
of the fault, or the first reason. -/
def IsKept (version : Version) (before : List Xml.Event) (name : Xml.ElementName) : Prop :=
  IsField version .code before name ∨
    IsField version .reason before name ∧ NoReason version before

namespace Scan

/-- An element of this name that begins here is in another name space, and if it stands at a
field it is a reason after the first. -/
def BeginsUnkept (version : Version) (scan : Scan) (name : Xml.ElementName) : Prop :=
  scan.fault.isSome → Path.isForeign (ancestor version name :: scan.path) = true →
    ∀ field, Path.field? version (ancestor version name :: scan.path) = some field →
      field = .reason ∧ 1 ≤ scan.reasons

/-- An element that is open at a field in another name space is a reason after the first. -/
def ForeignUnkept (version : Version) (scan : Scan) : Prop :=
  scan.fault.isSome → ∀ outer : Path, outer <:+ scan.path → outer.isForeign = true →
    ∀ field, outer.field? version = some field → field = .reason ∧ 2 ≤ scan.reasons

theorem foreignUnkept_of_length {scan : Scan} (hlength : scan.path.length ≤ 3) :
    scan.ForeignUnkept version := by
  intro _ outer hsuffix _ field hfield
  rw [FieldText.field?_eq_none_of_length (hsuffix.length_le.trans hlength)] at hfield
  cases hfield

theorem Steps.foreignUnkept {scan next : Scan} {event : Xml.Event}
    (hsteps : Steps version scan event next) (hregular : scan.Regular version)
    (hunkept : scan.ForeignUnkept version)
    (hbegins : ∀ name, event = .start name → scan.BeginsUnkept version name) :
    next.ForeignUnkept version := by
  intro hsome
  obtain ⟨fault, hfault⟩ := Option.isSome_iff_exists.mp hsome
  cases hbefore : scan.fault with
  | none =>
      -- The fault begins here, where no field can be open.
      obtain ⟨-, hlength, -⟩ := hsteps.fault_begins hbefore hfault
      refine foreignUnkept_of_length ?_ hsome
      rw [hsteps.path_eq]
      cases event <;> simp [Path.after, hlength]
  | some earlier =>
      have hthere : scan.fault.isSome := by rw [hbefore]; rfl
      cases hsteps with
      | @start name entered henters =>
          have hentered : entered.fault.isSome := by
            rwa [(henters.settled (hregular.told hthere)).2]
          rw [push_eq, henters.path_eq, henters.reasons_eq]
          intro outer hsuffix hforeign field hfield
          rcases List.suffix_cons_iff.mp hsuffix with rfl | hsuffix
          · obtain ⟨rfl, hcounted⟩ := hbegins name rfl hthere hforeign field hfield
            refine ⟨rfl, ?_⟩
            simp only [hentered, hfield, and_self, if_true]
            omega
          · obtain ⟨rfl, hcounted⟩ := hunkept hthere outer hsuffix hforeign field hfield
            exact ⟨rfl, hcounted.trans (Nat.le_add_right _ _)⟩
      | empty henters =>
          rw [henters.path_eq, henters.reasons_eq]
          exact hunkept hthere
      | close =>
          intro outer hsuffix
          exact hunkept hthere outer (hsuffix.trans (List.tail_suffix _))
      | idle => exact hunkept hthere
      | text =>
          rw [append_eq]
          exact hunkept hthere

/-- Of what is open at a field in another name space no text is kept. -/
theorem steps_of_foreignText {scan : Scan} {leaf : Xml.Leaf}
    (hunkept : scan.ForeignUnkept version) (hleaf : ForeignText scan.path leaf) :
    Steps version scan leaf.event scan := by
  cases hfield : scan.field? version with
  | none => exact .idle rfl hleaf.plain hfield
  | some field =>
      obtain ⟨hsome, hhere⟩ := field?_eq_some_iff.mp hfield
      obtain ⟨rfl, hcounted⟩ :=
        hunkept hsome scan.path (List.suffix_refl _) hleaf.foreign field hhere
      obtain ⟨text, htext⟩ := Option.ne_none_iff_exists'.mp hleaf.readable
      have hsteps := Steps.text rfl hleaf.plain hfield htext
      rwa [append_eq_self hcounted] at hsteps

/-- Where no element whose text is kept stands in another name space, the text there does
not matter. -/
theorem run_of_foreignText {path : Path} {events others : List Xml.Event}
    (hvaries : Varies version ForeignText path events others) {scan final : Scan}
    (hpath : scan.path = path) (hregular : scan.Regular version)
    (hunkept : scan.ForeignUnkept version)
    (hbegins : ∀ before name after middle, events = before ++ .start name :: after →
      scan.run version before = .ok middle → middle.BeginsUnkept version name)
    (hrun : scan.run version events = .ok final) : scan.run version others = .ok final := by
  induction hvaries generalizing scan with
  | nil => exact hrun
  | @both path event events others _ ih =>
      obtain ⟨next, hsteps, hrest⟩ := run_cons_eq_ok_iff.mp hrun
      refine run_cons_eq_ok_iff.mpr ⟨next, hsteps, ?_⟩
      refine ih (by rw [hsteps.path_eq, hpath]) (hsteps.regular hregular) ?_ ?_ hrest
      · refine hsteps.foreignUnkept hregular hunkept fun name hevent => ?_
        exact hbegins [] name events scan (by rw [hevent]; rfl) rfl
      · rintro before name after middle rfl hmiddle
        exact hbegins (event :: before) name after middle rfl
          (run_cons_eq_ok_iff.mpr ⟨next, hsteps, hmiddle⟩)
  | @left path leaf events others hleaf _ ih =>
      have hsteps : Steps version scan leaf.event scan :=
        steps_of_foreignText hunkept (by rwa [hpath])
      obtain ⟨next, hnext, hrest⟩ := run_cons_eq_ok_iff.mp hrun
      obtain rfl : scan = next := Except.ok.inj (hsteps.step_eq.symm.trans hnext.step_eq)
      refine ih hpath hregular hunkept ?_ hrest
      rintro before name after middle rfl hmiddle
      exact hbegins (leaf.event :: before) name after middle rfl
        (run_cons_eq_ok_iff.mpr ⟨scan, hsteps, hmiddle⟩)
  | @right path leaf events others hleaf _ ih =>
      have hsteps : Steps version scan leaf.event scan :=
        steps_of_foreignText hunkept (by rwa [hpath])
      exact run_cons_eq_ok_iff.mpr ⟨scan, hsteps, ih hpath hregular hunkept hbegins hrun⟩

/-! ## Where the text shows -/

/-- A text more at a field that is kept shows in the fault unless it is blank. -/
theorem blank_of_run_append {scan first second : Scan} {field : FaultField}
    {events : List Xml.Event} {text : String} (htold : scan.operation ≠ none)
    (hsome : scan.fault.isSome) (hkept : field = .reason → scan.reasons ≤ 1)
    (hfirst : scan.run version events = .ok first)
    (hsecond : (scan.append field text).run version events = .ok second)
    (hsame : second.fault.map trimFault = first.fault.map trimFault) : Text.Blank text := by
  obtain ⟨fault, hfault⟩ := Option.isSome_iff_exists.mp hsome
  have hgrown : (scan.append field text).fault = some (extend scan.reasons field text fault) := by
    rw [append_eq, hfault, Option.map_some]
  have htold' : (scan.append field text).operation ≠ none := by rwa [append_operation]
  obtain ⟨hfirst, -⟩ := fault_of_run hfirst htold hfault
  obtain ⟨hsecond, -⟩ := fault_of_run hsecond htold' hgrown
  rw [hfirst, hsecond, append_path, append_reasons] at hsame
  simp only [Option.map_some, Option.some.injEq, trimFault, Fault.mk.injEq] at hsame
  obtain ⟨hcode, hreason⟩ := hsame
  cases field with
  | code => exact Text.blank_of_trim_insert hcode
  | reason =>
      rw [extend, if_pos (hkept rfl)] at hreason
      exact Text.blank_of_trim_insert hreason

theorem isKept_iff_of_run {before : List Xml.Event} {scan : Scan}
    (hrun : start.run version before = .ok scan) {name : Xml.ElementName} :
    IsKept version before name ↔ scan.fault.isSome ∧
      ∃ field, Path.field? version (ancestor version name :: scan.path) = some field ∧
        (field = .reason → scan.reasons = 0) := by
  rw [IsKept, isField_iff_of_run hrun, isField_iff_of_run hrun,
    ← reasons_eq_zero_iff_noReason hrun]
  constructor
  · rintro (⟨hsome, hcode⟩ | ⟨⟨hsome, hreason⟩, hzero⟩)
    · exact ⟨hsome, .code, hcode, nofun⟩
    · exact ⟨hsome, .reason, hreason, fun _ => hzero⟩
  · rintro ⟨hsome, field, hfield, hfirst⟩
    cases field with
    | code => exact .inl ⟨hsome, hfield⟩
    | reason => exact .inr ⟨⟨hsome, hfield⟩, hfirst rfl⟩

/-- The pass in an element whose text is kept. -/
theorem exists_push_of_isKept {before : List Xml.Event} {scan : Scan} {name : Xml.ElementName}
    (hrun : start.run version before = .ok scan) (hkept : IsKept version before name) :
    ∃ field, Steps version scan (.start name) (scan.push version name) ∧
      (scan.push version name).field? version = some field ∧
      (field = .reason → (scan.push version name).reasons ≤ 1) := by
  obtain ⟨hsome, field, hfield, hfirst⟩ := (isKept_iff_of_run hrun).mp hkept
  refine ⟨field, .start (.indifferent (indifferent_of_field?_cons hfield)), ?_, ?_⟩
  · rw [push_of_field? hsome hfield, field?_eq_some_iff]
    exact ⟨by simpa using hsome, hfield⟩
  · rintro rfl
    simp [push_of_field? hsome hfield, count, hfirst rfl]

end Scan

/-- A character that shows wherever it is kept. -/
private def mark : Xml.Leaf := .text (Bytes.ofAscii "x")

/-- If text in another name space changes nothing, none is kept. -/
theorem isForeign_eq_false_of_inert {before after : List Xml.Event} {name : Xml.ElementName}
    {envelope : Envelope}
    (hread : Envelope.ofDocument version ⟨before ++ .start name :: after, none⟩ = .ok envelope)
    (hinert : ∀ others, Varies version ForeignText [] (before ++ .start name :: after) others →
      Envelope.ofDocument version ⟨others, none⟩ = .ok envelope)
    (hkept : IsKept version before name) :
    Path.isForeign (Scan.ancestor version name :: Path.ofEvents version before) = false := by
  by_contra hforeign
  have hplace := Bool.not_eq_false _ ▸ hforeign
  -- One character more in the element.
  have hvaries : Varies version ForeignText [] (before ++ .start name :: after)
      (before ++ .start name :: mark.event :: after) :=
    .append_left (.both (.right ⟨hplace, by decide, by decide⟩ (.refl _ _)))
  obtain ⟨first, hrun, hfinish⟩ := Envelope.ofDocument_eq_ok_iff.mp hread
  obtain ⟨second, hrun', hfinish'⟩ := Envelope.ofDocument_eq_ok_iff.mp (hinert _ hvaries)
  obtain ⟨scan, hbefore, hrest⟩ := Scan.run_append_eq_ok_iff.mp hrun
  obtain ⟨field, hstart, hfield, hfirst⟩ := Scan.exists_push_of_isKept hbefore hkept
  have hregular := hstart.regular (Scan.regular_of_run hbefore)
  have hsome := (Scan.field?_eq_some_iff.mp hfield).1
  have hmark : Scan.Steps version (scan.push version name) mark.event
      ((scan.push version name).append field "x") :=
    .text rfl (by decide) hfield (by decide)
  have hfirstRun : (scan.push version name).run version after = .ok first := by
    rwa [Scan.run, hstart.step_eq] at hrest
  have hsecondRun : ((scan.push version name).append field "x").run version after =
      .ok second := by
    obtain ⟨scan', hbefore', hrest'⟩ := Scan.run_append_eq_ok_iff.mp hrun'
    obtain rfl := Except.ok.inj (hbefore.symm.trans hbefore')
    simpa only [Scan.run, hstart.step_eq, hmark.step_eq] using hrest'
  have hsame : second.fault.map Scan.trimFault = first.fault.map Scan.trimFault := by
    obtain ⟨-, -, -, rfl⟩ := Scan.finish_eq_ok_iff.mp hfinish
    obtain ⟨-, -, -, henvelope⟩ := Scan.finish_eq_ok_iff.mp hfinish'
    exact (congrArg Envelope.fault henvelope).symm
  have hblank : Text.Blank "x" :=
    Scan.blank_of_run_append (hregular.told hsome) hsome hfirst hfirstRun hsecondRun hsame
  exact absurd hblank (by decide)

/-- **When text in another name space is inert.**  Text that can be decoded and stands in an
element of another name space, or further in than one, may be there or not: the document is
an envelope or not for the same reason, and if it is one then with the same operation and
with a fault or without.  The code and the reason stay the same under every such change
exactly if no element whose text is kept, that is no code and not the first reason, stands at
such a place. -/
theorem foreignText_inert_iff (version : Version) (events : List Xml.Event) :
    (∀ others failure, Varies version ForeignText [] events others →
      (Envelope.ofDocument version ⟨others, failure⟩).map Envelope.wordless =
        (Envelope.ofDocument version ⟨events, failure⟩).map Envelope.wordless) ∧
    ∀ envelope, Envelope.ofDocument version ⟨events, none⟩ = .ok envelope →
      ((∀ others, Varies version ForeignText [] events others →
          Envelope.ofDocument version ⟨others, none⟩ = .ok envelope) ↔
        ∀ before name after, events = before ++ .start name :: after →
          IsKept version before name →
            Path.isForeign (Scan.ancestor version name :: Path.ofEvents version before) =
              false) := by
  refine ⟨fun others failure hvaries => ?_, fun envelope hread => ⟨?_, ?_⟩⟩
  · exact hvaries.ofDocument_wordless (fun _ _ hfree => ⟨hfree.plain, hfree.readable⟩) failure
  · rintro hinert before name after rfl hkept
    exact isForeign_eq_false_of_inert hread hinert hkept
  · intro hnone others hvaries
    obtain ⟨final, hrun, hfinish⟩ := Envelope.ofDocument_eq_ok_iff.mp hread
    refine Envelope.ofDocument_eq_ok_iff.mpr ⟨final, ?_, hfinish⟩
    refine Scan.run_of_foreignText hvaries rfl Scan.regular_start
      (Scan.foreignUnkept_of_length (by decide)) ?_ hrun
    intro before name after middle hevents hmiddle hsome hforeign field hfield
    -- Otherwise its text is kept, and it is not in another name space.
    by_contra hunkept
    have hkept : IsKept version before name := by
      refine (Scan.isKept_iff_of_run hmiddle).mpr ⟨hsome, field, hfield, fun hreason => ?_⟩
      by_contra hcounted
      exact hunkept ⟨hreason, Nat.one_le_iff_ne_zero.mpr hcounted⟩
    rw [Scan.path_of_run hmiddle, hnone before name after hevents hkept] at hforeign
    cases hforeign

section ForeignCode

/-- A fault whose code is written by an element of another name space. -/
private def foreignCode (text : String) : List Xml.Event :=
  [.start (Version.named .v1_2 "Envelope"), .start (Version.named .v1_2 "Body"),
    .start (Version.named .v1_2 "Fault"), .start (Version.named .v1_2 "Code"),
    .start ⟨"Value", some (Bytes.ofAscii "u")⟩, .text (Bytes.ofAscii text), .close, .close,
    .close, .close, .close]

theorem foreignText_inert_iff_foreignCode :
    Varies .v1_2 ForeignText [] (foreignCode "a") (foreignCode "b") ∧
      Envelope.ofDocument .v1_2 ⟨foreignCode "a", none⟩ = .ok ⟨some "Fault", some ⟨"a", ""⟩⟩ ∧
      Envelope.ofDocument .v1_2 ⟨foreignCode "b", none⟩ = .ok ⟨some "Fault", some ⟨"b", ""⟩⟩ ∧
      (Envelope.ofDocument .v1_2 ⟨foreignCode "b", none⟩).map Envelope.wordless =
        (Envelope.ofDocument .v1_2 ⟨foreignCode "a", none⟩).map Envelope.wordless ∧
      ¬ ∀ before name after, foreignCode "a" = before ++ .start name :: after →
        IsKept .v1_2 before name →
          Path.isForeign (Scan.ancestor .v1_2 name :: Path.ofEvents .v1_2 before) = false := by
  have hvaries : Varies .v1_2 ForeignText [] (foreignCode "a") (foreignCode "b") := by
    have hforeign : ∀ text, (Xml.Leaf.text (Bytes.ofAscii text)).event.characters? ≠ none →
        ForeignText (Path.ofEvents .v1_2 ((foreignCode "").take 5)) (.text (Bytes.ofAscii text)) :=
      fun _ hreadable => ⟨by decide, nofun, hreadable⟩
    -- The two have all but the sixth event in common.
    exact .both <| .both <| .both <| .both <| .both <|
      .left (hforeign "a" (by decide)) <| .right (hforeign "b" (by decide)) <| .refl _ _
  have hread : Envelope.ofDocument .v1_2 ⟨foreignCode "a", none⟩ =
      .ok ⟨some "Fault", some ⟨"a", ""⟩⟩ := by decide
  have hother : Envelope.ofDocument .v1_2 ⟨foreignCode "b", none⟩ =
      .ok ⟨some "Fault", some ⟨"b", ""⟩⟩ := by decide
  obtain ⟨hsame, hinert⟩ := foreignText_inert_iff .v1_2 (foreignCode "a")
  refine ⟨hvaries, hread, hother, hsame _ none hvaries, fun hnone => ?_⟩
  have hkept := (hinert _ hread).mpr hnone _ hvaries
  exact absurd (hother.symm.trans hkept) (by decide)

end ForeignCode

end KerberosHttp.Soap
