import KerberosHttp.Proofs.Soap.Places

/-!
# Which error a document gets

Many things can be wrong with one document.  The first of them in the order of the
document decides, and the end of the document does only if there is none.

## Strategy

`Offends` says why a document is refused at one event, told by the events before it and
not by the state of the pass.  `step_eq_error_iff` shows that it is exactly that for which
the pass fails there, and `exists_run_iff` that the pass comes so far exactly if none of
the events before is refused.  The two together say where a pass over all events fails
(`run_eq_error_iff`), and `EndsWith` what remains for the end.
-/

namespace KerberosHttp

namespace Xml.Document

/-- What the reader gives for a document, one after another: the events, and then the
error if it ended with one. -/
def reads (document : Document) : List (Except Error Event) :=
  document.events.map .ok ++ document.failure.toList.map .error

theorem reads_cons (event : Event) (rest : List Event) (failure : Option Error) :
    reads ⟨event :: rest, failure⟩ = .ok event :: reads ⟨rest, failure⟩ := rfl

/-- What comes after some events is another one, or the error. -/
theorem prefix_reads_iff {document : Document} {before : List Event} {read : Except Error Event} :
    before.map .ok ++ [read] <+: document.reads ↔
      (∃ event after, read = .ok event ∧ document.events = before ++ event :: after) ∨
        ∃ cause, read = .error cause ∧ document.events = before ∧
          document.failure = some cause := by
  obtain ⟨events, failure⟩ := document
  induction before generalizing events with
  | nil =>
      cases events with
      | nil => cases failure <;> simp [reads]
      | cons event rest => simp [reads_cons]
  | cons first before ih =>
      cases events with
      | nil => cases failure <;> simp [reads]
      | cons event rest =>
          rw [List.map_cons, List.cons_append, reads_cons, List.cons_prefix_cons, ih]
          constructor
          · rintro ⟨hsame, ⟨read, after, rfl, rfl⟩ | ⟨cause, rfl, rfl, hfailure⟩⟩
            · cases hsame
              exact .inl ⟨read, after, rfl, rfl⟩
            · cases hsame
              exact .inr ⟨cause, rfl, rfl, hfailure⟩
          · rintro (⟨read, after, rfl, hevents⟩ | ⟨cause, rfl, hevents, hfailure⟩)
            · cases hevents
              exact ⟨rfl, .inl ⟨read, after, rfl, rfl⟩⟩
            · cases hevents
              exact ⟨rfl, .inr ⟨cause, rfl, rfl, hfailure⟩⟩

end Xml.Document

namespace Soap

/-- Why an element is no root of an envelope, by whether one has begun before. -/
inductive RefusesRoot (version : Version) (name : Xml.ElementName) : Bool → MessageError → Prop
  | second : RefusesRoot version name true (.extraRoot name.localName)
  | other (hname : name.localName ≠ "Envelope" ∨ name.space = none) :
      RefusesRoot version name false .missingEnvelope
  | foreign {uri : Bytes} (hlocal : name.localName = "Envelope")
      (hspace : name.space = some uri) (hother : uri ≠ version.uriBytes) :
      RefusesRoot version name false (.versionMismatch version (Utf8.decodeLossy uri))

/-- Why a document is refused at what the reader gives after some events. -/
inductive Offends (version : Version) (before : List Xml.Event) :
    Except Xml.Error Xml.Event → MessageError → Prop
  | doctype : Offends version before (.ok .doctype) .doctype
  | root {event : Xml.Event} {name : Xml.ElementName} {error : MessageError}
      (hname : event.element? = some name) (houtside : Path.ofEvents version before = [])
      (hrefuses : RefusesRoot version name (hasEnvelope version before) error) :
      Offends version before (.ok event) error
  | text {content : Bytes} {cause : Xml.Error} (hfield : fieldAfter? version before ≠ none)
      (hcause : Xml.unescape content = .error cause) :
      Offends version before (.ok (.text content)) (.xml cause)
  | cdata {content : Bytes} {cause : Utf8.Error} (hfield : fieldAfter? version before ≠ none)
      (hcause : Utf8.decode content = .error cause) :
      Offends version before (.ok (.cdata content)) (.utf8 cause)
  | unreadable {cause : Xml.Error} : Offends version before (.error cause) (.xml cause)

/-- A document is not refused at any of these events. -/
def Harmless (version : Version) : List Xml.Event → Prop :=
  Each fun before event => ∀ error, ¬ Offends version before (.ok event) error

/-- Why a document is refused at its end, after these events. -/
inductive EndsWith (version : Version) (events : List Xml.Event) : MessageError → Prop
  | truncated (hopen : Path.ofEvents version events ≠ []) : EndsWith version events .truncated
  | missingEnvelope (hclosed : Path.ofEvents version events = [])
      (hnone : placed version events = []) : EndsWith version events .missingEnvelope
  | missingBody (hclosed : Path.ofEvents version events = [])
      (hsome : placed version events ≠ []) (hbody : hasBody version events = false) :
      EndsWith version events .missingBody

variable {version : Version}

namespace Scan

/-! ## Where one event is refused -/

theorem enterRoot_eq_error_iff {scan : Scan} {name : Xml.ElementName} {error : MessageError} :
    scan.enterRoot version name = .error error ↔
      RefusesRoot version name scan.sawEnvelope error := by
  unfold enterRoot
  constructor
  · intro henter
    cases hsaw : scan.sawEnvelope with
    | true =>
        simp only [hsaw, if_true, Except.error.injEq] at henter
        exact henter ▸ .second
    | false =>
        by_cases hlocal : name.localName = "Envelope"
        · cases hspace : name.space with
          | none =>
              simp only [hsaw, hlocal, hspace, ne_eq, not_true_eq_false, if_false,
                Bool.false_eq_true, Except.error.injEq] at henter
              exact henter ▸ .other (.inr hspace)
          | some uri =>
              by_cases huri : uri = version.uriBytes
              · simp [hsaw, hlocal, hspace, huri] at henter
              · simp only [hsaw, hlocal, hspace, huri, ne_eq, not_true_eq_false, if_false,
                  Bool.false_eq_true, Except.error.injEq] at henter
                exact henter ▸ .foreign hlocal hspace huri
        · simp only [hsaw, hlocal, ne_eq, not_false_eq_true, if_true, if_false,
            Bool.false_eq_true, Except.error.injEq] at henter
          exact henter ▸ .other (.inl hlocal)
  · intro hrefuses
    generalize hsaw : scan.sawEnvelope = seen at hrefuses
    cases hrefuses with
    | second => simp
    | other hname =>
        by_cases hlocal : name.localName = "Envelope"
        · have hspace : name.space = none := hname.resolve_left fun hother => hother hlocal
          simp [hlocal, hspace]
        · simp [hlocal]
    | foreign hlocal hspace hother => simp [hlocal, hspace, hother]

/-- Only a root can be refused for its name. -/
theorem enter_eq_error_iff {scan : Scan} {name : Xml.ElementName} {error : MessageError} :
    scan.enter version name = .error error ↔
      scan.path = [] ∧ RefusesRoot version name scan.sawEnvelope error := by
  by_cases hpath : scan.path = []
  · have hroot : scan.enter version name = scan.enterRoot version name := by simp [enter, hpath]
    rw [hroot, enterRoot_eq_error_iff]
    simp [hpath]
  · obtain ⟨entered, henters⟩ := exists_enters version hpath name
    rw [enter_eq_ok_iff.mpr henters]
    simp [hpath]

theorem step_eq_error_iff {before : List Xml.Event} {scan : Scan} {event : Xml.Event}
    {error : MessageError} (hrun : start.run version before = .ok scan) :
    scan.step version event = .error error ↔ Offends version before (.ok event) error := by
  have hpath : scan.path = Path.ofEvents version before := path_of_run hrun
  have hsaw : scan.sawEnvelope = hasEnvelope version before := (tells_of_run hrun).sawEnvelope
  have hfield : scan.field? version = fieldAfter? version before := field?_of_run hrun
  have hroot : ∀ name, event.element? = some name →
      (scan.enter version name = .error error ↔ Offends version before (.ok event) error) := by
    intro name hname
    rw [enter_eq_error_iff, hpath, hsaw]
    constructor
    · rintro ⟨houtside, hrefuses⟩
      exact .root hname houtside hrefuses
    · intro hoffends
      cases hoffends with
      | root hother houtside hrefuses =>
          obtain rfl := Option.some.inj (hname.symm.trans hother)
          exact ⟨houtside, hrefuses⟩
      | _ => cases hname
  cases event with
  | start name =>
      rw [← hroot name rfl]
      cases henter : scan.enter version name with
      | error cause => simp [step, henter, bind, Except.bind]
      | ok entered => simp [step, henter, bind, Except.bind, pure, Except.pure]
  | empty name => exact hroot name rfl
  | close =>
      refine iff_of_false (fun hstep => ?_) fun hoffends => ?_
      · cases hstep
      · cases hoffends with
        | root hname => cases hname
  | text content =>
      constructor
      · intro hstep
        simp only [step, hfield] at hstep
        split at hstep
        · cases hstep
        · next field hsome =>
            split at hstep
            · cases hstep
            · next cause hcause =>
                cases hstep
                exact .text (by simp [hsome]) hcause
      · intro hoffends
        cases hoffends with
        | root hname => cases hname
        | text hsome hcause =>
            obtain ⟨field, hsome⟩ := Option.ne_none_iff_exists'.mp hsome
            simp [step, hfield, hsome, hcause]
  | cdata content =>
      constructor
      · intro hstep
        simp only [step, hfield] at hstep
        split at hstep
        · cases hstep
        · next field hsome =>
            split at hstep
            · cases hstep
            · next cause hcause =>
                cases hstep
                exact .cdata (by simp [hsome]) hcause
      · intro hoffends
        cases hoffends with
        | root hname => cases hname
        | cdata hsome hcause =>
            obtain ⟨field, hsome⟩ := Option.ne_none_iff_exists'.mp hsome
            simp [step, hfield, hsome, hcause]
  | doctype =>
      constructor
      · intro hstep
        cases hstep
        exact .doctype
      · intro hoffends
        cases hoffends with
        | doctype => rfl
        | root hname => cases hname
  | other =>
      refine iff_of_false (fun hstep => ?_) fun hoffends => ?_
      · cases hstep
      · cases hoffends with
        | root hname => cases hname

/-! ## Where a pass is refused -/

/-- A pass goes on exactly as long as no event is refused. -/
theorem exists_run_iff {events : List Xml.Event} :
    (∃ scan, start.run version events = .ok scan) ↔ Harmless version events := by
  induction events using List.reverseRecOn with
  | nil => exact iff_of_true ⟨start, rfl⟩ each_nil
  | append_singleton before event ih =>
      rw [Harmless, each_concat_iff, ← Harmless, ← ih]
      constructor
      · rintro ⟨final, hrun⟩
        obtain ⟨scan, hbefore, hlast⟩ := run_append_eq_ok_iff.mp hrun
        rw [run_singleton] at hlast
        refine ⟨⟨scan, hbefore⟩, fun error hoffends => ?_⟩
        rw [(step_eq_error_iff hbefore).mpr hoffends] at hlast
        cases hlast
      · rintro ⟨⟨scan, hbefore⟩, hlast⟩
        cases hstep : scan.step version event with
        | ok next =>
            refine ⟨next, run_append_eq_ok_iff.mpr ⟨scan, hbefore, ?_⟩⟩
            rw [run_singleton, hstep]
        | error error => exact absurd ((step_eq_error_iff hbefore).mp hstep) (hlast error)

/-- A pass fails at the first event that is refused, whatever follows it. -/
theorem run_eq_error_iff {events : List Xml.Event} {error : MessageError} :
    start.run version events = .error error ↔
      ∃ before event after, events = before ++ event :: after ∧
        Harmless version before ∧ Offends version before (.ok event) error := by
  constructor
  · intro hrun
    induction events using List.reverseRecOn with
    | nil => cases hrun
    | append_singleton before event ih =>
        rw [run_append] at hrun
        cases hbefore : start.run version before with
        | ok scan =>
            rw [hbefore] at hrun
            have hstep : scan.step version event = .error error :=
              (run_singleton scan event).symm.trans hrun
            exact ⟨before, event, [], rfl, exists_run_iff.mp ⟨scan, hbefore⟩,
              (step_eq_error_iff hbefore).mp hstep⟩
        | error cause =>
            rw [hbefore] at hrun
            obtain rfl : cause = error := Except.error.inj hrun
            obtain ⟨earlier, refused, later, hevents, hharmless, hoffends⟩ := ih hbefore
            exact ⟨earlier, refused, later ++ [event], by simp [hevents], hharmless, hoffends⟩
  · rintro ⟨before, event, after, rfl, hharmless, hoffends⟩
    obtain ⟨scan, hbefore⟩ := exists_run_iff.mpr hharmless
    have hstep : scan.step version event = .error error :=
      (step_eq_error_iff hbefore).mpr hoffends
    rw [run_append, hbefore]
    show scan.run version (event :: after) = _
    rw [run, hstep]

theorem finish_eq_error_iff {events : List Xml.Event} {scan : Scan} {error : MessageError}
    (hrun : start.run version events = .ok scan) :
    scan.finish = .error error ↔ EndsWith version events error := by
  have hpath : scan.path = Path.ofEvents version events := path_of_run hrun
  have hsaw : scan.sawEnvelope = hasEnvelope version events := (tells_of_run hrun).sawEnvelope
  have hbody : scan.sawBody = hasBody version events := (tells_of_run hrun).sawBody
  -- In a document that is read to its end, elements begin only after an envelope has.
  have hnone : hasEnvelope version events = false ↔ placed version events = [] :=
    ⟨fun hfirst => (placed_eq_nil_of_run hrun hfirst).1, fun hempty => by simp [hasEnvelope, hempty]⟩
  unfold finish
  rw [hpath, hsaw, hbody]
  constructor
  · intro hfinish
    split at hfinish
    · next hopen =>
        cases hfinish
        exact .truncated hopen
    · next hclosed =>
        have hclosed : Path.ofEvents version events = [] := not_not.mp hclosed
        split at hfinish
        · next hfirst =>
            cases hfinish
            exact .missingEnvelope hclosed (hnone.mp (by simpa using hfirst))
        · next hfirst =>
            have hsome : placed version events ≠ [] := fun hempty =>
              hfirst (by simp [hnone.mpr hempty])
            split at hfinish
            · next hmissing =>
                cases hfinish
                exact .missingBody hclosed hsome (by simpa using hmissing)
            · cases hfinish
  · intro hends
    cases hends with
    | truncated hopen => rw [if_pos hopen]
    | missingEnvelope hclosed hempty => simp [hclosed, hnone.mpr hempty]
    | missingBody hclosed hsome hmissing =>
        have hfirst : hasEnvelope version events = true := by
          by_contra hfirst
          exact hsome (hnone.mp (Bool.eq_false_iff.mpr hfirst))
        simp [hclosed, hfirst, hmissing]

end Scan

/-! ## The error of a document -/

/-- The first offence refuses a document, whatever follows it. -/
theorem ofDocument_of_offends {document : Xml.Document} {before : List Xml.Event}
    {read : Except Xml.Error Xml.Event} {error : MessageError}
    (hreads : before.map .ok ++ [read] <+: document.reads) (hharmless : Harmless version before)
    (hoffends : Offends version before read error) :
    Envelope.ofDocument version document = .error error := by
  unfold Envelope.ofDocument
  rcases Xml.Document.prefix_reads_iff.mp hreads with
    ⟨event, after, rfl, hevents⟩ | ⟨cause, rfl, hevents, hfailure⟩
  · rw [Scan.run_eq_error_iff.mpr ⟨before, event, after, hevents, hharmless, hoffends⟩]
  · cases hoffends
    obtain ⟨scan, hrun⟩ := Scan.exists_run_iff.mpr hharmless
    rw [hevents, hrun, hfailure]

/-- A document without an offence is judged at its end. -/
theorem ofDocument_of_harmless {document : Xml.Document} (hfine : document.failure = none)
    (hharmless : Harmless version document.events) {error : MessageError} :
    Envelope.ofDocument version document = .error error ↔
      EndsWith version document.events error := by
  obtain ⟨scan, hrun⟩ := Scan.exists_run_iff.mpr hharmless
  have hfinish : Envelope.ofDocument version document = scan.finish := by
    simp [Envelope.ofDocument, hrun, hfine]
  rw [hfinish, Scan.finish_eq_error_iff hrun]

/-- A document has a first offence, or none. -/
theorem exists_offends_or_harmless (version : Version) (document : Xml.Document) :
    (∃ before read error, before.map .ok ++ [read] <+: document.reads ∧
      Harmless version before ∧ Offends version before read error) ∨
      document.failure = none ∧ Harmless version document.events := by
  cases hrun : Scan.start.run version document.events with
  | error error =>
      obtain ⟨before, event, after, hevents, hharmless, hoffends⟩ := Scan.run_eq_error_iff.mp hrun
      have hreads := Xml.Document.prefix_reads_iff.mpr (.inl ⟨event, after, rfl, hevents⟩)
      exact .inl ⟨before, .ok event, error, hreads, hharmless, hoffends⟩
  | ok scan =>
      have hharmless : Harmless version document.events := Scan.exists_run_iff.mp ⟨scan, hrun⟩
      cases hfailure : document.failure with
      | none => exact .inr ⟨rfl, hharmless⟩
      | some cause =>
          have hreads := Xml.Document.prefix_reads_iff.mpr (.inr ⟨cause, rfl, rfl, hfailure⟩)
          exact .inl ⟨document.events, .error cause, .xml cause, hreads, hharmless, .unreadable⟩

/-- **The first offence decides.**  A document is refused with an error exactly if the
first thing that offends, among its events and the error of its reader, offends with that
error, or if nothing offends and the document ends with that error.  So two documents that
agree up to the first offence are refused with the same error. -/
theorem ofDocument_eq_error_iff (version : Version) :
    (∀ document error, Envelope.ofDocument version document = .error error ↔
      (∃ before read, before.map .ok ++ [read] <+: document.reads ∧
        Harmless version before ∧ Offends version before read error) ∨
      (document.failure = none ∧ Harmless version document.events ∧
        EndsWith version document.events error)) ∧
    ∀ (document other : Xml.Document) before read error,
      before.map .ok ++ [read] <+: document.reads → before.map .ok ++ [read] <+: other.reads →
      Harmless version before → Offends version before read error →
        Envelope.ofDocument version document = .error error ∧
          Envelope.ofDocument version other = .error error := by
  refine ⟨fun document error => ⟨fun hread => ?_, ?_⟩, ?_⟩
  · rcases exists_offends_or_harmless version document with
      ⟨before, read, found, hreads, hharmless, hoffends⟩ | ⟨hfine, hharmless⟩
    · have hfound := ofDocument_of_offends hreads hharmless hoffends
      obtain rfl : found = error := Except.error.inj (hfound.symm.trans hread)
      exact .inl ⟨before, read, hreads, hharmless, hoffends⟩
    · exact .inr ⟨hfine, hharmless, (ofDocument_of_harmless hfine hharmless).mp hread⟩
  · rintro (⟨before, read, hreads, hharmless, hoffends⟩ | ⟨hfine, hharmless, hends⟩)
    · exact ofDocument_of_offends hreads hharmless hoffends
    · exact (ofDocument_of_harmless hfine hharmless).mpr hends
  · intro document other before read error hreads hother hharmless hoffends
    exact ⟨ofDocument_of_offends hreads hharmless hoffends,
      ofDocument_of_offends hother hharmless hoffends⟩

section ManyOffences

/-- The events up to the text of the code of a fault. -/
private def inCode : List Xml.Event :=
  [.other, .start (Version.named .v1_2 "Envelope"), .start (Version.named .v1_2 "Body"),
    .start (Version.named .v1_2 "Fault"), .start (Version.named .v1_2 "Code"),
    .start (Version.named .v1_2 "Value"), .text (Bytes.ofAscii "env:Sender")]

theorem ofDocument_eq_error_iff_inCode :
    Harmless .v1_2 inCode ∧
      Envelope.ofDocument .v1_2 ⟨inCode ++ [.cdata [0xFF], .doctype, .close], none⟩ =
        .error (.utf8 (.invalid 1 0)) ∧
      Envelope.ofDocument .v1_2 ⟨inCode ++ [.cdata [0xFF], .text (Bytes.ofAscii "&")],
          some (.nesting .missingDoctypeName)⟩ = .error (.utf8 (.invalid 1 0)) ∧
      Envelope.ofDocument .v1_2 ⟨inCode, none⟩ = .error .truncated := by
  have hharmless : Harmless .v1_2 inCode := Scan.exists_run_iff.mp ⟨_, rfl⟩
  have hoffends : Offends .v1_2 inCode (.ok (.cdata [0xFF])) (.utf8 (.invalid 1 0)) :=
    .cdata (by decide) (by decide)
  obtain ⟨hrefused, hagree⟩ := ofDocument_eq_error_iff .v1_2
  obtain ⟨hfirst, hsecond⟩ := hagree
    ⟨inCode ++ [.cdata [0xFF], .doctype, .close], none⟩
    ⟨inCode ++ [.cdata [0xFF], .text (Bytes.ofAscii "&")], some (.nesting .missingDoctypeName)⟩
    inCode (.ok (.cdata [0xFF])) _ (by decide) (by decide) hharmless hoffends
  refine ⟨hharmless, hfirst, hsecond, (hrefused _ _).mpr (.inr ⟨rfl, hharmless, ?_⟩)⟩
  exact .truncated (by decide)

end ManyOffences

end Soap

end KerberosHttp
