import KerberosHttp.Proofs.Soap.Variation

/-!
# Text outside the fields of a fault

Most of the character data of a document means nothing to the pass: blanks between tags,
what stands in a header or in an operation, what stands around the envelope.  So do comments,
instructions and declarations, wherever they are.  This file shows that none of it leaves a
trace, not even if it cannot be decoded, so that it may be put in, taken out and changed at
will.

## Strategy

An inert leaf does nothing to a pass, because the pass decodes nothing where its path ends at
no field (`step_of_inert`).  Two documents that differ only in inert leaves take the same way
through the pass: an event that both have finds the pass in one and the same state, and the
path of that state says which leaves are inert there (`run_eq_of_varies`).

## Main statement

* `ofDocument_eq_of_varies`: documents that differ only in inert leaves have one outcome.
-/

namespace KerberosHttp.Soap

/-- A path ends at a field of a fault: it leads through a body below the root along the names
of the field. -/
def Path.AtField (version : Version) (path : Path) : Prop :=
  ∃ (field : FaultField) (inner : Path) (body root : Ancestor),
    path = inner ++ [body, root] ∧ body.isBody = true ∧ inner.map (·.name) = field.trail version

/-- A leaf that says nothing: it declares no document type, and stands at no field of a
fault.  What it holds does not matter. -/
structure Inert (version : Version) (path : Path) (leaf : Xml.Leaf) : Prop where
  plain : leaf ≠ .doctype
  apart : ¬ path.AtField version

variable {version : Version}

theorem Path.atField_iff {path : Path} : path.AtField version ↔ path.field? version ≠ none := by
  rw [Option.ne_none_iff_exists']
  constructor
  · rintro ⟨field, hplace⟩
    exact ⟨field, field?_eq_some_iff_trail.mpr hplace⟩
  · rintro ⟨field, hfield⟩
    exact ⟨field, field?_eq_some_iff_trail.mp hfield⟩

instance (path : Path) : Decidable (path.AtField version) :=
  decidable_of_iff _ Path.atField_iff.symm

theorem Inert.field?_eq_none {path : Path} {leaf : Xml.Leaf} (hinert : Inert version path leaf) :
    path.field? version = none :=
  Decidable.not_not.mp (mt Path.atField_iff.mpr hinert.apart)

namespace Scan

/-- An inert leaf leaves the pass as it is. -/
theorem step_of_inert {scan : Scan} {leaf : Xml.Leaf} (hinert : Inert version scan.path leaf) :
    scan.step version leaf.event = .ok scan := by
  have hfield : scan.field? version = none := by
    rw [field?, hinert.field?_eq_none, ite_self]
  apply step_leaf_eq_ok_iff.mpr
  rw [hfield]
  exact ⟨hinert.plain, rfl⟩

theorem run_of_inert {scan : Scan} {leaf : Xml.Leaf} (hinert : Inert version scan.path leaf)
    (rest : List Xml.Event) :
    scan.run version (leaf.event :: rest) = scan.run version rest := by
  rw [run, step_of_inert hinert]

/-- Documents that differ only in inert leaves take the same way through the pass. -/
theorem run_eq_of_varies {path : Path} {events others : List Xml.Event}
    (hvaries : Varies version (Inert version) path events others) {scan : Scan}
    (hpath : scan.path = path) : scan.run version events = scan.run version others := by
  induction hvaries generalizing scan with
  | nil => rfl
  | @both path event events others _ ih =>
      rw [run, run]
      cases hstep : scan.step version event with
      | error error => rfl
      | ok next =>
          have hnext : next.path = path.after version event := by
            rw [(steps_of_step hstep).path_eq, hpath]
          exact ih hnext
  | @left path leaf events others hinert _ ih =>
      subst hpath
      calc scan.run version (leaf.event :: events)
          = scan.run version events := run_of_inert hinert events
        _ = scan.run version others := ih rfl
  | @right path leaf events others hinert _ ih =>
      subst hpath
      calc scan.run version events
          = scan.run version others := ih rfl
        _ = scan.run version (leaf.event :: others) := (run_of_inert hinert others).symm

/-- At a field of a fault nothing may stand that cannot be decoded. -/
theorem characters?_ne_none_of_run {before after : List Xml.Event} {leaf : Xml.Leaf}
    {final : Scan} (hcarries : CarriesFault version before)
    (hplace : (Path.ofEvents version before).AtField version)
    (hrun : start.run version (before ++ leaf.event :: after) = .ok final) :
    leaf.event.characters? ≠ none := by
  obtain ⟨scan, hbefore, hrest⟩ := run_append_eq_ok_iff.mp hrun
  obtain ⟨next, hsteps, -⟩ := run_cons_eq_ok_iff.mp hrest
  obtain ⟨field, hfield⟩ := Option.ne_none_iff_exists'.mp (Path.atField_iff.mp hplace)
  obtain ⟨-, hnext⟩ := step_leaf_eq_ok_iff.mp hsteps.step_eq
  rw [field?_of_run hbefore, fieldAfter?, if_pos hcarries, hfield] at hnext
  obtain ⟨characters, hcharacters, -⟩ := hnext
  rw [hcharacters]
  exact Option.some_ne_none characters

end Scan

/-- **Text outside the fields of a fault is inert.**  Let two documents be the same but for
leaves that declare no document type and stand at no field of a fault.  Then they have one
outcome, the same error or the same operation, code and reason.  In particular such a leaf
may be left out, whatever it holds: nothing in it is expanded, and it is no error that it
cannot be decoded.  At a field it is one, if the first element in the bodies is a fault. -/
theorem ofDocument_eq_of_varies (version : Version) :
    (∀ events others failure, Varies version (Inert version) [] events others →
      Envelope.ofDocument version ⟨events, failure⟩ =
        Envelope.ofDocument version ⟨others, failure⟩) ∧
    (∀ before (leaf : Xml.Leaf) after failure, Inert version (Path.ofEvents version before) leaf →
      Envelope.ofDocument version ⟨before ++ leaf.event :: after, failure⟩ =
        Envelope.ofDocument version ⟨before ++ after, failure⟩) ∧
    ∀ before (leaf : Xml.Leaf) after failure envelope, CarriesFault version before →
      (Path.ofEvents version before).AtField version →
      Envelope.ofDocument version ⟨before ++ leaf.event :: after, failure⟩ = .ok envelope →
        leaf.event.characters? ≠ none := by
  have hsame : ∀ events others failure, Varies version (Inert version) [] events others →
      Envelope.ofDocument version ⟨events, failure⟩ =
        Envelope.ofDocument version ⟨others, failure⟩ := by
    intro events others failure hvaries
    have hrun : Scan.start.run version events = Scan.start.run version others :=
      Scan.run_eq_of_varies hvaries rfl
    simp only [Envelope.ofDocument, hrun]
  refine ⟨hsame, ?_, ?_⟩
  · intro before leaf after failure hinert
    apply hsame
    apply Varies.append_left
    exact .left hinert (.refl _ _)
  · intro before leaf after failure envelope hcarries hplace hread
    unfold Envelope.ofDocument at hread
    split at hread
    · cases hread
    · next hrun => exact Scan.characters?_ne_none_of_run hcarries hplace hrun

section Noisy

/-- The events of a fault up to its code. -/
private def untilCode : List Xml.Event :=
  [.start (Version.named .v1_1 "Envelope"), .start (Version.named .v1_1 "Body"),
    .start (Version.named .v1_1 "Fault"), .start ⟨"faultcode", none⟩]

private def bareCode : List Xml.Event :=
  untilCode ++ [.text (Bytes.ofAscii "a"), .close, .close, .close, .close]

/-- The same with leaves around its tags that cannot be decoded. -/
private def noisyCode : List Xml.Event :=
  [.text [0xFF], .start (Version.named .v1_1 "Envelope"), .text (Bytes.ofAscii "&nope;"),
    .start (Version.named .v1_1 "Body"), .cdata [0xC3], .start (Version.named .v1_1 "Fault"),
    .other, .start ⟨"faultcode", none⟩, .text (Bytes.ofAscii "a"), .close,
    .text (Bytes.ofAscii "&#x;"), .close, .close, .close]

theorem ofDocument_eq_of_varies_noisy :
    Varies .v1_1 (Inert .v1_1) [] noisyCode bareCode ∧ ¬ Xml.Decodes noisyCode ∧
      Envelope.ofDocument .v1_1 ⟨noisyCode, none⟩ = .ok ⟨some "Fault", some ⟨"a", ""⟩⟩ ∧
      Envelope.ofDocument .v1_1 ⟨.text [0xFF] :: bareCode, some (.markup .unclosedTag)⟩ =
        .error (.xml (.markup .unclosedTag)) ∧
      Xml.Event.characters? (.text (Bytes.ofAscii "a")) ≠ none := by
  obtain ⟨hsame, hwithout, hfield⟩ := ofDocument_eq_of_varies .v1_1
  have hvaries : Varies .v1_1 (Inert .v1_1) [] noisyCode bareCode := by
    have hinert : ∀ (events : List Xml.Event) (leaf : Xml.Leaf), leaf ≠ .doctype →
        ¬ (Path.ofEvents .v1_1 events).AtField .v1_1 →
        Inert .v1_1 (Path.ofEvents .v1_1 events) leaf :=
      fun _ _ hplain hapart => ⟨hplain, hapart⟩
    refine .left (hinert [] (.text [0xFF]) nofun (by decide)) (.both ?_)
    refine .left (hinert (untilCode.take 1) (.text (Bytes.ofAscii "&nope;")) nofun (by decide)) ?_
    refine .both (.left (hinert (untilCode.take 2) (.cdata [0xC3]) nofun (by decide)) (.both ?_))
    refine .left (hinert (untilCode.take 3) .other nofun (by decide)) (.both (.both (.both ?_)))
    refine .left (hinert (untilCode.take 3) (.text (Bytes.ofAscii "&#x;")) nofun (by decide)) ?_
    exact .refl _ _
  have hbare : Envelope.ofDocument .v1_1 ⟨bareCode, none⟩ =
      .ok ⟨some "Fault", some ⟨"a", ""⟩⟩ := by decide
  have hinert : Inert .v1_1 [] (.text [0xFF]) := ⟨nofun, by decide⟩
  refine ⟨hvaries, by decide, (hsame _ _ none hvaries).trans hbare, ?_, ?_⟩
  · exact hwithout [] (.text [0xFF]) bareCode (some (.markup .unclosedTag)) hinert
  · exact hfield untilCode (.text (Bytes.ofAscii "a")) _ none _ (by decide) (by decide) hbare

end Noisy

end KerberosHttp.Soap
