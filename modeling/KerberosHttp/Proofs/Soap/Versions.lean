import KerberosHttp.Proofs.Soap.Message
import KerberosHttp.Proofs.Soap.Outline

/-!
# The versions exclude each other

An envelope of one version is no envelope of the other, and the other says why: it
names the name space that it found.

## Strategy

Two passes over one document differ in their version only, and a version is first
looked at where the root begins.  Up to there a pass that goes on is where it started
(`start_of_steps`): no fault is open, so no text is decoded, and no element is.  So
both passes reach the root in the same state.  A root that is accepted by the one is
an `Envelope` in its name space, and that is all the other needs to name a mismatch.
-/

namespace KerberosHttp.Soap

/-- The name space of a version is shown as it is written. -/
theorem Version.decodeLossy_uriBytes (version : Version) :
    Utf8.decodeLossy version.uriBytes = version.uri := by
  cases version <;> decide +kernel

theorem Version.uriBytes_ne {version other : Version} (hother : other ≠ version) :
    other.uriBytes ≠ version.uriBytes := by
  cases version with
  | v1_1 =>
      cases other with
      | v1_1 => exact absurd rfl hother
      | v1_2 => decide
  | v1_2 =>
      cases other with
      | v1_1 => decide
      | v1_2 => exact absurd rfl hother

namespace Scan

variable {version other : Version}

theorem enterRoot_of_other {name : Xml.ElementName} (hother : other ≠ version)
    (hname : IsNamed version "Envelope" name) :
    start.enterRoot other name = .error (.versionMismatch other version.uri) := by
  obtain ⟨hlocal, hspace⟩ := hname
  have hfound : version.uriBytes ≠ other.uriBytes := (Version.uriBytes_ne hother).symm
  simp [enterRoot, start, hlocal, hspace, hfound, version.decodeLossy_uriBytes]

/-- Before the root a pass that goes on is where it started, whatever its version. -/
theorem start_of_steps {event : Xml.Event} {next : Scan} (other : Version)
    (hsteps : Steps version start event next) (hstart : ∀ name, event ≠ .start name)
    (hempty : ∀ name, event ≠ .empty name) :
    next = start ∧ start.step other event = .ok start := by
  have hfield : ∀ version : Version, start.field? version = none := fun _ => rfl
  cases hsteps with
  | start => exact absurd rfl (hstart _)
  | empty => exact absurd rfl (hempty _)
  | close => exact ⟨rfl, rfl⟩
  | idle hevent hleaf => exact ⟨rfl, (Steps.idle hevent hleaf (hfield other)).step_eq⟩
  | text _ _ hsome => cases (hfield version).symm.trans hsome

/-- A pass of the one version that came to see an envelope is, with the other version,
a mismatch. -/
theorem run_of_other {final : Scan} {events : List Xml.Event} (hother : other ≠ version)
    (hrun : start.run version events = .ok final) (hsaw : final.sawEnvelope = true) :
    start.run other events = .error (.versionMismatch other version.uri) := by
  induction events with
  | nil =>
      cases hrun
      cases hsaw
  | cons event rest ih =>
      obtain ⟨next, hstep, hrest⟩ := run_cons_eq_ok_iff.mp hrun
      -- The root decides; nothing before it moves either pass.
      have hroot : ∀ name entered, Enters version start name entered →
          start.enter other name = .error (.versionMismatch other version.uri) := by
        intro name entered henters
        obtain ⟨-, hname, -⟩ := henters.of_root rfl
        exact enterRoot_of_other hother hname
      by_cases hstart : ∃ name, event = .start name
      · obtain ⟨name, rfl⟩ := hstart
        obtain ⟨entered, henters, -⟩ := steps_start_iff.mp hstep
        simp [run, step, hroot name entered henters, bind, Except.bind]
      · by_cases hempty : ∃ name, event = .empty name
        · obtain ⟨name, rfl⟩ := hempty
          have henters := steps_empty_iff.mp hstep
          simp [run, step, hroot name next henters]
        · rw [not_exists] at hstart hempty
          obtain ⟨rfl, hother'⟩ := start_of_steps other hstep hstart hempty
          rw [run, hother']
          exact ih hrest

end Scan

/-- **The versions exclude each other.**  Octets that are a message of one version are,
as a message of the other, a mismatch: what was expected is that other version, and what
was found is the name space of the one that accepts them. -/
theorem ofBytes_of_other {version other : Version} {content : Bytes} {message : Message}
    (hother : other ≠ version) (haccept : Message.ofBytes version content = .ok message) :
    Message.ofBytes other content = .error (.versionMismatch other version.uri) := by
  obtain ⟨hread, -⟩ := Message.ofBytes_eq_ok_iff.mp haccept
  obtain ⟨hfailure, scan, hrun, hfinish⟩ := Envelope.read_eq_ok_iff.mp hread
  obtain ⟨-, hsaw, -, -⟩ := Scan.finish_eq_ok_iff.mp hfinish
  have hrefused := Scan.run_of_other hother hrun hsaw
  rw [Message.ofBytes_eq_error_iff, Envelope.read, Envelope.ofDocument, hrefused]

/-- A message of the earlier version, after a declaration, a comment and some text. -/
theorem ofBytes_of_other_prolog :
    ∃ content message,
      content = Bytes.ofAscii "<?xml?><!-- one --> &two; <e:Envelope xmlns:e=\"" ++
        Version.uriBytes .v1_1 ++ Bytes.ofAscii "\"><e:Body><Ping/></e:Body></e:Envelope>" ∧
      Message.ofBytes .v1_1 content = .ok message ∧
      Message.ofBytes .v1_2 content = .error
        (.versionMismatch .v1_2 "http://schemas.xmlsoap.org/soap/envelope/") := by
  let content := Bytes.ofAscii "<?xml?><!-- one --> &two; <e:Envelope xmlns:e=\"" ++
    Version.uriBytes .v1_1 ++ Bytes.ofAscii "\"><e:Body><Ping/></e:Body></e:Envelope>"
  have hread : Envelope.read .v1_1 content = .ok ⟨some "Ping", none⟩ := rfl
  obtain ⟨message, haccept, -⟩ := Message.exists_ofBytes hread
  exact ⟨content, message, rfl, haccept, ofBytes_of_other (by decide) haccept⟩

end KerberosHttp.Soap
