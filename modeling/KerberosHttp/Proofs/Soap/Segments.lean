import KerberosHttp.Proofs.Soap.FaultCode
import KerberosHttp.Proofs.Soap.FaultReason
import KerberosHttp.Proofs.Soap.Variation

/-!
# How the text of a field is cut

The text of an element at a field may stand in it as character data or as character data
sections, in any number of pieces, with comments, instructions and other elements between
them.  How it is cut does not matter: only the whole of it counts.

## Strategy

Whatever fills the element, the pass has added its whole text to the field at the end of the
element and is otherwise in the same state (`run_fieldElement_eq_ok_iff`).  So with the same
text it goes on the same, and with another one it goes on the same but for the text
(`exists_run_refilled`).  Blanks are trimmed once, from what the pass has kept in the end.
-/

namespace KerberosHttp

/-- Events that may fill an element at a field: they spell a content that declares no
document type and whose character data can be decoded. -/
structure Xml.Content.Fills (content : Xml.Content) (events : List Xml.Event) : Prop where
  spells : content.Spells events
  plain : Xml.Event.doctype ∉ events
  readable : content.Readable

namespace Soap

/-- The fault with another text at a field. -/
def Fault.put (fault : Fault) (text : String) : FaultField → Fault
  | .code => { fault with code := text }
  | .reason => { fault with reason := text }

/-- The envelope with another text at a field of its fault. -/
def Envelope.put (envelope : Envelope) (field : FaultField) (text : String) : Envelope :=
  { envelope with fault := envelope.fault.map fun fault => fault.put text field }

/-- The document in which some events stand in an element. -/
def holding (before : List Xml.Event) (name : Xml.ElementName) (after inner : List Xml.Event) :
    Xml.Document :=
  ⟨before ++ .start name :: (inner ++ .close :: after), none⟩

variable {version : Version} {field : FaultField}

namespace Scan

section Refilled

variable {scan final : Scan} {name : Xml.ElementName} {inside other : Xml.Content}
  {inner refill after : List Xml.Event}

/-- With another content in an element at a field the pass goes on, and finds the same but
for the text of the fault. -/
theorem exists_run_refilled (hinside : inside.Spells inner) (hother : other.Fills refill)
    (hsome : scan.fault.isSome)
    (hfield : Path.field? version (ancestor version name :: scan.path) = some field)
    (hrun : scan.run version (.start name :: (inner ++ .close :: after)) = .ok final) :
    ∃ final', scan.run version (.start name :: (refill ++ .close :: after)) = .ok final' ∧
      final'.wordless = final.wordless := by
  obtain ⟨-, -, hafter⟩ := (run_fieldElement_eq_ok_iff hinside hsome hfield).mp hrun
  have hagree : ((scan.count field).append field inside.text).wordless =
      ((scan.count field).append field other.text).wordless := by
    rw [wordless_append, wordless_append]
  obtain ⟨final', hafter', hfinal⟩ := exists_run_of_wordless hagree hafter
  exact ⟨final', (run_fieldElement_eq_ok_iff hother.spells hsome hfield).mpr
    ⟨hother.plain, hother.readable, hafter'⟩, hfinal⟩

/-- With another content that leaves the same, the pass goes on from the same state. -/
theorem run_refilled_eq (hinside : inside.Spells inner) (hother : other.Fills refill)
    (hsome : scan.fault.isSome)
    (hfield : Path.field? version (ancestor version name :: scan.path) = some field)
    (hsame : (scan.count field).append field other.text =
      (scan.count field).append field inside.text)
    (hrun : scan.run version (.start name :: (inner ++ .close :: after)) = .ok final) :
    scan.run version (.start name :: (refill ++ .close :: after)) = .ok final := by
  obtain ⟨-, -, hafter⟩ := (run_fieldElement_eq_ok_iff hinside hsome hfield).mp hrun
  exact (run_fieldElement_eq_ok_iff hother.spells hsome hfield).mpr
    ⟨hother.plain, hother.readable, hsame ▸ hafter⟩

/-- A code adds what stands directly in it to what was there. -/
theorem fault_of_codeElement {fault : Fault} (hregular : scan.Regular version)
    (hfault : scan.fault = some fault)
    (hfield : Path.field? version (ancestor version name :: scan.path) = some .code)
    (hinside : inside.Spells inner)
    (hrun : scan.run version (.start name :: (inner ++ .close :: after)) = .ok final) :
    final.fault = some
      ⟨fault.code ++ inside.text ++ Xml.textOf (leavesFrom version .code scan.path after),
        fault.reason ++ (FieldText.ofEvents version .reason scan.path after).first scan.reasons⟩ := by
  have hsome : scan.fault.isSome := by rw [hfault]; rfl
  obtain ⟨-, -, hafter⟩ := (run_fieldElement_eq_ok_iff hinside hsome hfield).mp hrun
  rw [count_code] at hafter
  have hgrown : (scan.append .code inside.text).fault =
      some ⟨fault.code ++ inside.text, fault.reason⟩ := by
    rw [append_eq, hfault]
    rfl
  have htold : (scan.append .code inside.text).operation ≠ none := by
    simpa using hregular.told hsome
  obtain ⟨hfinal, -⟩ := fault_of_run hafter htold hgrown
  rw [hfinal, append_path, append_reasons, all_ofEvents]

end Refilled

end Scan

section Accepted

variable {before inner refill after : List Xml.Event} {name : Xml.ElementName}
  {inside other : Xml.Content} {scan final : Scan} {envelope : Envelope}

/-- With another content in an element at a field an envelope is still one, and of what it
says only the text of the fault changes. -/
theorem exists_ofDocument_refilled (hbefore : Scan.start.run version before = .ok scan)
    (hsome : scan.fault.isSome)
    (hfield : Path.field? version (Scan.ancestor version name :: scan.path) = some field)
    (hinside : inside.Spells inner)
    (hrest : scan.run version (.start name :: (inner ++ .close :: after)) = .ok final)
    (hfinish : final.finish = .ok envelope) (hother : other.Fills refill) :
    ∃ final', scan.run version (.start name :: (refill ++ .close :: after)) = .ok final' ∧
      Envelope.ofDocument version (holding before name after refill) =
        .ok { envelope with fault := final'.fault.map Scan.trimFault } := by
  obtain ⟨final', hrefilled, hagree⟩ :=
    Scan.exists_run_refilled hinside hother hsome hfield hrest
  have hrun : Scan.start.run version (before ++ .start name :: (refill ++ .close :: after)) =
      .ok final' := Scan.run_append_eq_ok_iff.mpr ⟨scan, hbefore, hrefilled⟩
  exact ⟨final', hrefilled, Envelope.ofDocument_eq_ok_iff.mpr
    ⟨final', hrun, Scan.finish_of_wordless hagree hfinish⟩⟩

/-- With another content that leaves the same, an envelope says the same. -/
theorem ofDocument_refilled_eq (hbefore : Scan.start.run version before = .ok scan)
    (hsome : scan.fault.isSome)
    (hfield : Path.field? version (Scan.ancestor version name :: scan.path) = some field)
    (hinside : inside.Spells inner)
    (hrest : scan.run version (.start name :: (inner ++ .close :: after)) = .ok final)
    (hfinish : final.finish = .ok envelope) (hother : other.Fills refill)
    (hsame : (scan.count field).append field other.text =
      (scan.count field).append field inside.text) :
    Envelope.ofDocument version (holding before name after refill) = .ok envelope := by
  have hrefilled := Scan.run_refilled_eq hinside hother hsome hfield hsame hrest
  have hrun : Scan.start.run version (before ++ .start name :: (refill ++ .close :: after)) =
      .ok final := Scan.run_append_eq_ok_iff.mpr ⟨scan, hbefore, hrefilled⟩
  exact Envelope.ofDocument_eq_ok_iff.mpr ⟨final, hrun, hfinish⟩

end Accepted

/-- **How the text of a field is cut does not matter.**  In an accepted envelope let anything
else stand in an element at a field of its fault.  With the same text there, however it is
cut, the envelope says the same.  With any text it is accepted, and of what it says only the
field changes: to the whole text of the codes before, this text, and the codes behind, or to
this text alone if the element is the first reason, trimmed at its ends and nowhere between.
A later reason changes nothing. -/
theorem ofDocument_refilled (version : Version) {field : FaultField}
    {before inner after : List Xml.Event} {name : Xml.ElementName} {inside : Xml.Content}
    {envelope : Envelope} (hfield : IsField version field before name)
    (hinside : inside.Spells inner)
    (hread : Envelope.ofDocument version (holding before name after inner) = .ok envelope) :
    (∀ (other : Xml.Content) refill, other.Fills refill → other.text = inside.text →
      Envelope.ofDocument version (holding before name after refill) = .ok envelope) ∧
    ∀ (other : Xml.Content) refill, other.Fills refill →
      (field = .code →
        Envelope.ofDocument version (holding before name after refill) =
          .ok (envelope.put .code (Text.trim
            (Xml.textOf (leavesFrom version .code [] before) ++ other.text ++
              Xml.textOf (leavesFrom version .code (Path.ofEvents version before) after))))) ∧
      (field = .reason → NoReason version before →
        Envelope.ofDocument version (holding before name after refill) =
          .ok (envelope.put .reason (Text.trim other.text))) ∧
      (field = .reason → ¬ NoReason version before →
        Envelope.ofDocument version (holding before name after refill) = .ok envelope) := by
  obtain ⟨scan, hrun, hfinish⟩ := Envelope.ofDocument_eq_ok_iff.mp hread
  obtain ⟨middle, hbefore, hrest⟩ := Scan.run_append_eq_ok_iff.mp hrun
  obtain ⟨hsome, hhere⟩ := (Scan.isField_iff_of_run hbefore).mp hfield
  obtain ⟨fault, hfault⟩ := Option.isSome_iff_exists.mp hsome
  have hregular : middle.Regular version := Scan.regular_of_run hbefore
  have henvelope : envelope.fault = scan.fault.map Scan.trimFault := by
    obtain ⟨-, -, -, rfl⟩ := Scan.finish_eq_ok_iff.mp hfinish
    rfl
  refine ⟨fun other refill hother hsame => ?_, fun other refill hother => ⟨?_, ?_, ?_⟩⟩
  · exact ofDocument_refilled_eq hbefore hsome hhere hinside hrest hfinish hother (by rw [hsame])
  · rintro rfl
    obtain ⟨final, hrefilled, hread'⟩ :=
      exists_ofDocument_refilled hbefore hsome hhere hinside hrest hfinish hother
    have hpath : middle.path = Path.ofEvents version before := Scan.path_of_run hbefore
    rw [hread', Scan.fault_of_codeElement hregular hfault hhere hother.spells hrefilled,
      ← (Scan.code_of_run hbefore hfault).1, ← hpath, Envelope.put, henvelope,
      Scan.fault_of_codeElement hregular hfault hhere hinside hrest]
    rfl
  · rintro rfl hfirst
    obtain ⟨final, hrefilled, hread'⟩ :=
      exists_ofDocument_refilled hbefore hsome hhere hinside hrest hfinish hother
    have hzero : middle.reasons = 0 := (Scan.reasons_eq_zero_iff_noReason hbefore).mpr hfirst
    rw [hread', (Scan.fault_of_firstReason hregular hfault hhere hzero hother.spells hrefilled).2,
      Envelope.put, henvelope,
      (Scan.fault_of_firstReason hregular hfault hhere hzero hinside hrest).2]
    rfl
  · rintro rfl hlater
    have hcounted : middle.reasons ≠ 0 :=
      mt (Scan.reasons_eq_zero_iff_noReason hbefore).mp hlater
    have hsecond : 2 ≤ (middle.count .reason).reasons :=
      Nat.succ_le_succ (Nat.one_le_iff_ne_zero.mpr hcounted)
    refine ofDocument_refilled_eq hbefore hsome hhere hinside hrest hfinish hother ?_
    rw [Scan.append_eq_self hsecond, Scan.append_eq_self hsecond]

section Pieces

/-- The events up to the content of a reason, and those behind it. -/
private def untilReason : List Xml.Event :=
  [.start (Version.named .v1_1 "Envelope"), .start (Version.named .v1_1 "Body"),
    .start (Version.named .v1_1 "Fault")]

private def behindReason : List Xml.Event := [.close, .close, .close]

private def twoPieces : List Xml.Event :=
  [.text (Bytes.ofAscii " limit: "), .cdata (Bytes.ofAscii "x < 10 ")]

private def threePieces : List Xml.Event :=
  [.cdata (Bytes.ofAscii " limit:"), .other, .text (Bytes.ofAscii " x &#60;"),
    .empty ⟨"br", none⟩, .cdata (Bytes.ofAscii " 10 ")]

private def threePiecesContent : Xml.Content :=
  .leaf (.cdata (Bytes.ofAscii " limit:")) (.leaf .other (.leaf (.text (Bytes.ofAscii " x &#60;"))
    (.element ⟨"br", none⟩ .nil (.leaf (.cdata (Bytes.ofAscii " 10 ")) .nil))))

theorem ofDocument_refilled_threePieces :
    IsField .v1_1 .reason untilReason ⟨"faultstring", none⟩ ∧
      threePiecesContent.Fills threePieces ∧
      Envelope.ofDocument .v1_1 (holding untilReason ⟨"faultstring", none⟩ behindReason twoPieces) =
        .ok ⟨some "Fault", some ⟨"", "limit: x < 10"⟩⟩ ∧
      Envelope.ofDocument .v1_1
          (holding untilReason ⟨"faultstring", none⟩ behindReason threePieces) =
        .ok ⟨some "Fault", some ⟨"", "limit: x < 10"⟩⟩ ∧
      Envelope.ofDocument .v1_1 (holding untilReason ⟨"faultstring", none⟩ behindReason []) =
        .ok ⟨some "Fault", some ⟨"", ""⟩⟩ := by
  have hfield : IsField .v1_1 .reason untilReason ⟨"faultstring", none⟩ := by decide
  have hinside : Xml.Content.Spells (.leaf (.text (Bytes.ofAscii " limit: "))
      (.leaf (.cdata (Bytes.ofAscii "x < 10 ")) .nil)) twoPieces :=
    Xml.Content.spells_of_ofEvents? rfl
  have hfills : threePiecesContent.Fills threePieces :=
    ⟨Xml.Content.spells_of_ofEvents? rfl, by decide, by decide⟩
  have hread : Envelope.ofDocument .v1_1
      (holding untilReason ⟨"faultstring", none⟩ behindReason twoPieces) =
        .ok ⟨some "Fault", some ⟨"", "limit: x < 10"⟩⟩ := by decide
  obtain ⟨hsame, hany⟩ := ofDocument_refilled .v1_1 hfield hinside hread
  have hfirst : NoReason .v1_1 untilReason := by
    obtain ⟨scan, hrun⟩ : ∃ scan, Scan.start.run .v1_1 untilReason = .ok scan := ⟨_, rfl⟩
    exact (Scan.reasons_eq_zero_iff_noReason hrun).mp (by cases hrun; rfl)
  refine ⟨hfield, hfills, hread, hsame _ _ hfills (by decide), ?_⟩
  exact (hany .nil [] ⟨.nil, by decide, by decide⟩).2.1 rfl hfirst

end Pieces

end Soap

end KerberosHttp
