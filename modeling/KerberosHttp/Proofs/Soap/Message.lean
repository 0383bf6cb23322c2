import KerberosHttp.Proofs.Soap.Scan
import KerberosHttp.Soap.Message

/-!
# Where the error of a message comes from

Octets are a message exactly if they are an envelope (`ofBytes_eq_ok_iff`), and the
error of the one is the error of the other.

What octets say never ends in a failure to read: only a stream can fail so, and it
does exactly if it breaks (`ofStream_eq_io_iff`).  That tells an answer that was
never read from one that was read and is no message.
-/

namespace KerberosHttp.Soap

variable {version : Version}

namespace Scan

theorem enter_ne_io (scan : Scan) (name : Xml.ElementName) (cause : IoError) :
    scan.enter version name ≠ .error (.io cause) := by
  intro henter
  rcases scan.place_cases with hpath | ⟨root, hpath⟩ | ⟨body, root, hpath, hbody, hnone⟩ | hplace
  · simp only [enter, hpath, enterRoot] at henter
    split at henter
    · cases henter
    · split at henter
      · cases henter
      · split at henter
        · cases henter
        · split at henter <;> cases henter
  · rw [enter_child hpath] at henter
    cases henter
  · rw [enter_operation hpath hbody hnone] at henter
    cases henter
  · rw [enter_indifferent hplace] at henter
    cases henter

theorem step_ne_io (scan : Scan) (event : Xml.Event) (cause : IoError) :
    scan.step version event ≠ .error (.io cause) := by
  intro hstep
  cases event with
  | start name =>
      simp only [step] at hstep
      cases henter : scan.enter version name with
      | ok entered => simp [henter, bind, Except.bind, pure, Except.pure] at hstep
      | error error =>
          simp only [henter, bind, Except.bind, Except.error.injEq] at hstep
          exact enter_ne_io scan name cause (hstep ▸ henter)
  | empty name => exact enter_ne_io scan name cause hstep
  | close => cases hstep
  | text content =>
      simp only [step] at hstep
      split at hstep
      · cases hstep
      · split at hstep <;> cases hstep
  | cdata content =>
      simp only [step] at hstep
      split at hstep
      · cases hstep
      · split at hstep <;> cases hstep
  | doctype => cases hstep
  | other => cases hstep

theorem run_ne_io (scan : Scan) (events : List Xml.Event) (cause : IoError) :
    scan.run version events ≠ .error (.io cause) := by
  induction events generalizing scan with
  | nil => exact fun hrun => by cases hrun
  | cons event rest ih =>
      intro hrun
      rw [run] at hrun
      split at hrun
      · exact ih _ hrun
      · next hstep =>
          cases hrun
          exact step_ne_io scan event cause hstep

theorem finish_ne_io (scan : Scan) (cause : IoError) : scan.finish ≠ .error (.io cause) := by
  intro hfinish
  unfold finish at hfinish
  split at hfinish
  · cases hfinish
  · split at hfinish
    · cases hfinish
    · split at hfinish <;> cases hfinish

end Scan

/-- What octets say never ends in a failure to read. -/
theorem Envelope.read_ne_io (content : Bytes) (cause : IoError) :
    read version content ≠ .error (.io cause) := by
  intro hread
  simp only [read, ofDocument] at hread
  split at hread
  · next hrun =>
      cases hread
      exact Scan.run_ne_io _ _ cause hrun
  · split at hread
    · cases hread
    · exact Scan.finish_ne_io _ cause hread

namespace Message

/-- Octets are a message exactly if they are an envelope, and then they are its content. -/
theorem ofBytes_eq_ok_iff {content : Bytes} {message : Message} :
    ofBytes version content = .ok message ↔
      Envelope.read version content = .ok message.envelope ∧
        message.version = version ∧ message.content = content ∧ message.mime = ∅ := by
  obtain ⟨version', mime, content', envelope, hread⟩ := message
  unfold ofBytes
  constructor
  · intro hbytes
    split at hbytes
    · next henvelope =>
        cases hbytes
        exact ⟨henvelope, rfl, rfl, rfl⟩
    · cases hbytes
  · rintro ⟨henvelope, rfl, rfl, rfl⟩
    split
    · next hsame =>
        cases henvelope.symm.trans hsame
        rfl
    · next hsame => cases henvelope.symm.trans hsame

theorem ofBytes_eq_error_iff {content : Bytes} {error : MessageError} :
    ofBytes version content = .error error ↔ Envelope.read version content = .error error := by
  unfold ofBytes
  split
  · next hread => simp [hread]
  · next hread => simp [hread]

/-- Octets that are an envelope are a message. -/
theorem exists_ofBytes {content : Bytes} {envelope : Envelope}
    (hread : Envelope.read version content = .ok envelope) :
    ∃ message, ofBytes version content = .ok message ∧ message.envelope = envelope :=
  ⟨⟨version, ∅, content, envelope, hread⟩, ofBytes_eq_ok_iff.mpr ⟨hread, rfl, rfl, rfl⟩, rfl⟩

theorem ofBytes_ne_io (content : Bytes) (cause : IoError) :
    ofBytes version content ≠ .error (.io cause) := by
  intro hbytes
  exact Envelope.read_ne_io content cause (ofBytes_eq_error_iff.mp hbytes)

theorem ofStream_eq_ofBytes {stream : Stream} {content : Bytes}
    (hread : stream.readToEnd = .ok content) :
    ofStream version stream = ofBytes version content := by
  rw [ofStream, hread]

/-- A message cannot be read exactly if its stream breaks. -/
theorem ofStream_eq_io_iff {stream : Stream} {cause : IoError} :
    ofStream version stream = .error (.io cause) ↔ stream.readToEnd = .error cause := by
  unfold ofStream
  cases hread : stream.readToEnd with
  | ok content => simp [ofBytes_ne_io]
  | error error => simp

/-- The message that says nothing. -/
def bare : Message where
  version := .v1_2
  mime := ∅
  content := Bytes.ofAscii
    "<Envelope xmlns=\"http://www.w3.org/2003/05/soap-envelope\"><Body/></Envelope>"
  envelope := ⟨none, none⟩
  envelope_eq := rfl

end Message

end KerberosHttp.Soap
