import KerberosHttp.Proofs.Soap.FieldElement

/-!
# The reason of a fault

The reason of a fault is what stands directly in one element: the first element at the
place of a reason that is written by two tags.

## Strategy

The count of reasons and the text go together.  Before the first reason begins none is
counted and no text is kept (`Scan.Regular`).  The element itself counts as one and leaves
its text (`run_fieldElement_eq_ok_iff`).  After it nothing is open at a reason, so of what
follows no text comes before a second one is counted, and from then on none is kept
(`FieldText.rest_ofEvents`).

The element has an end because all that the reader gives is nested (`Xml.Document.nested_read`)
and an accepted document leaves nothing open.
-/

namespace KerberosHttp.Soap

variable {version : Version}

namespace Scan

/-- The first reason leaves what stands directly in it, whatever follows. -/
theorem fault_of_firstReason {scan final : Scan} {name : Xml.ElementName} {fault : Fault}
    {inside : Xml.Content} {inner after : List Xml.Event} (hregular : scan.Regular version)
    (hfault : scan.fault = some fault)
    (hfield : Path.field? version (ancestor version name :: scan.path) = some .reason)
    (hzero : scan.reasons = 0) (hinside : inside.Spells inner)
    (hrun : scan.run version (.start name :: (inner ++ .close :: after)) = .ok final) :
    inside.Readable ∧ final.fault = some
      ⟨fault.code ++ (FieldText.ofEvents version .code scan.path after).all, inside.text⟩ := by
  have hsome : scan.fault.isSome := by rw [hfault]; rfl
  obtain ⟨-, hreadable, hafter⟩ := (run_fieldElement_eq_ok_iff hinside hsome hfield).mp hrun
  have hsilent : fault.reason = "" := hregular.silent fault hfault hzero
  have hkept : ((scan.count .reason).append .reason inside.text).fault =
      some ⟨fault.code, inside.text⟩ := by
    simp [append_eq, hfault, extend, count, hzero, hsilent]
  have htold : ((scan.count .reason).append .reason inside.text).operation ≠ none := by
    simpa using hregular.told hsome
  have houtside : FieldText.Outside version .reason scan.path :=
    FieldText.outside_of_field?_cons hfield
  have hcounted : ((scan.count .reason).append .reason inside.text).reasons = 1 := by
    simp [hzero]
  obtain ⟨hfinal, -⟩ := fault_of_run hafter htold hkept
  refine ⟨hreadable, ?_⟩
  rw [hfinal, append_path, count_path, hcounted, FieldText.first,
    FieldText.rest_ofEvents houtside, String.append_empty]

/-- Before the first reason a fault has no reason. -/
theorem reason_of_noReason {scan : Scan} {events : List Xml.Event} {fault : Fault}
    (hrun : start.run version events = .ok scan) (hnone : NoReason version events)
    (hfault : scan.fault = some fault) : fault.reason = "" :=
  (regular_of_run hrun).silent fault hfault ((reasons_eq_zero_iff_noReason hrun).mpr hnone)

end Scan

/-- **A reason is the text of one element.**  The reason of a fault is the trimmed text that
stands directly in the first element at the place of a reason that begins, by a start tag,
after the fault was found.  There is none if there is no such element, and nothing in its
descendants or in any later element is part of it. -/
theorem reason_eq_text_of_first (version : Version) {events : List Xml.Event}
    {envelope : Envelope} {fault : Fault} (hnested : Xml.Nested events)
    (hread : Envelope.ofDocument version ⟨events, none⟩ = .ok envelope)
    (hfault : envelope.fault = some fault) :
    (NoReason version events ∧ fault.reason = "") ∨
      ∃ before name inside inner after,
        events = before ++ .start name :: (inner ++ .close :: after) ∧
        Xml.Content.Spells inside inner ∧ IsField version .reason before name ∧
        NoReason version before ∧ inside.Readable ∧ fault.reason = Text.trim inside.text := by
  have hopen := Envelope.openAfter?_of_ofDocument hnested hread
  obtain ⟨scan, hrun, hfinish⟩ := Envelope.ofDocument_eq_ok_iff.mp hread
  obtain ⟨-, -, -, rfl⟩ := Scan.finish_eq_ok_iff.mp hfinish
  obtain ⟨untrimmed, hkept, rfl⟩ := Option.map_eq_some_iff.mp hfault
  rcases each_or_first (fun before event => ∀ name, event = .start name →
      ¬ IsField version .reason before name) events with
    hnone | ⟨before, event, rest, rfl, hbefore, hfirst⟩
  · refine .inl ⟨hnone, ?_⟩
    simp only [Scan.trimFault, Scan.reason_of_noReason hrun hnone hkept]
    decide
  · obtain ⟨name, rfl, hfield⟩ : ∃ name, event = .start name ∧
        IsField version .reason before name := by simpa using hfirst
    obtain ⟨inside, inner, after, rfl, hinside⟩ := Xml.Content.exists_spells_of_start hopen
    obtain ⟨middle, hmiddle, hrest⟩ := Scan.run_append_eq_ok_iff.mp hrun
    obtain ⟨hsome, hhere⟩ := (Scan.isField_iff_of_run hmiddle).mp hfield
    obtain ⟨earlier, hearlier⟩ := Option.isSome_iff_exists.mp hsome
    have hzero : middle.reasons = 0 := (Scan.reasons_eq_zero_iff_noReason hmiddle).mpr hbefore
    obtain ⟨hreadable, hfinal⟩ := Scan.fault_of_firstReason (Scan.regular_of_run hmiddle)
      hearlier hhere hzero hinside hrest
    obtain rfl := Option.some.inj (hkept.symm.trans hfinal)
    exact .inr ⟨before, name, inside, inner, after, rfl, hinside, hfield, hbefore, hreadable, rfl⟩

section SecondReason

/-- A reason in pieces around another element, with a second reason after it. -/
private def secondReason : List Xml.Event :=
  [.start (Version.named .v1_2 "Envelope"), .start (Version.named .v1_2 "Body"),
    .start (Version.named .v1_2 "Fault"), .start (Version.named .v1_2 "Reason"),
    .empty (Version.named .v1_2 "Text"), .start (Version.named .v1_2 "Text"),
    .text (Bytes.ofAscii " no &lt;"), .start ⟨"Text", none⟩, .text (Bytes.ofAscii "&"), .close,
    .cdata (Bytes.ofAscii "&> "), .close, .start (Version.named .v1_2 "Text"),
    .text (Bytes.ofAscii "non"), .close, .close, .close, .close, .close]

theorem reason_eq_text_of_first_secondReason :
    Xml.Nested secondReason ∧
      Envelope.ofDocument .v1_2 ⟨secondReason, none⟩ =
        .ok ⟨some "Fault", some ⟨"", "no <&>"⟩⟩ ∧
      ∃ before name inside inner after,
        secondReason = before ++ .start name :: (inner ++ .close :: after) ∧
        Xml.Content.Spells inside inner ∧ IsField .v1_2 .reason before name ∧
        NoReason .v1_2 before ∧ inside.Readable ∧ "no <&>" = Text.trim inside.text := by
  have hnested : Xml.Nested secondReason := by decide
  have hread : Envelope.ofDocument .v1_2 ⟨secondReason, none⟩ =
      .ok ⟨some "Fault", some ⟨"", "no <&>"⟩⟩ := by decide
  refine ⟨hnested, hread, ?_⟩
  rcases reason_eq_text_of_first .v1_2 hnested hread rfl with ⟨-, hnone⟩ | hfirst
  · exact absurd hnone (by decide)
  · exact hfirst

end SecondReason

end KerberosHttp.Soap
