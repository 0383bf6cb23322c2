import KerberosHttp.Proofs.Soap.Message
import KerberosHttp.Proofs.Soap.Outline
import KerberosHttp.Proofs.Xml.Cut

/-!
# Messages that are cut

The reader does not mind elements that never end, so only the pass over its events can
tell that a message was cut.  It does, by its path: after every event the path is as
long as elements are open (`Scan.length_path_of_run`), so a document that is accepted
has no element open at its end, and its root, which holds a body, has ended.

Cut before that, a message is refused whatever it is cut in.  Between two events of the
root the beginning is read as far as it goes and the pass goes as it did on the whole,
so all that there is to refuse is the open path.
-/

namespace KerberosHttp.Soap

open Xml

namespace Envelope

variable {version : Version}

theorem rootEnds_of_read {content : Bytes} {envelope : Envelope}
    (hread : read version content = .ok envelope) : RootEnds (Document.read content).events := by
  obtain ⟨-, tree, root, hspells, hroot, hbody⟩ := exists_tree_of_read hread
  refine hspells.rootEnds hroot ?_
  -- An empty root has no body.
  intro hempty
  rw [hempty] at hbody
  cases hbody

/-- A beginning of an envelope that ends between two events, with the root open, is
truncated. -/
theorem read_eq_truncated {first second : Bytes} {envelope : Envelope}
    (hread : read version (first ++ second) = .ok envelope) (hbetween : BetweenEvents first second)
    (hopen : RootOpen (Document.read first).events) : read version first = .error .truncated := by
  obtain ⟨hfine, scan, hrun, -⟩ := read_eq_ok_iff.mp hread
  obtain ⟨hfirst, later, hevents⟩ := hbetween.read hfine
  -- The pass on the beginning is the first part of the pass on the whole.
  rw [← hevents] at hrun
  obtain ⟨middle, hbefore, -⟩ := Scan.run_append_eq_ok_iff.mp hrun
  obtain ⟨depth, hdepth⟩ := hopen
  have hlength : middle.path.length = depth + 1 := Scan.length_path_of_run hbefore hdepth
  have hpath : middle.path ≠ [] := List.ne_nil_of_length_eq_add_one hlength
  rw [read, ofDocument, hbefore, hfirst]
  simp [Scan.finish, hpath]

end Envelope

/-- **Truncation is detected.**  The root of a message ends, and every beginning of the
message that is cut before that is an error.  If it is cut between two events while the
root is open, the error is that it is truncated. -/
theorem ofBytes_of_cut {version : Version} {content : Bytes} {message : Message}
    (haccept : Message.ofBytes version content = .ok message) :
    ∃ stop, rootEnd? content = some stop ∧ EndsRoot (content.take stop) (content.drop stop) ∧
      ∀ first second, content = first ++ second → first.length < stop →
        (∃ error, Message.ofBytes version first = .error error) ∧
          (BetweenEvents first second → RootOpen (Document.read first).events →
            Message.ofBytes version first = .error .truncated) := by
  obtain ⟨hread, -⟩ := Message.ofBytes_eq_ok_iff.mp haccept
  obtain ⟨stop, hstop⟩ := exists_rootEnd? (Envelope.rootEnds_of_read hread)
  refine ⟨stop, hstop, endsRoot_of_rootEnd? hstop, ?_⟩
  rintro first second rfl hcut
  constructor
  · cases hfirst : Message.ofBytes version first with
    | error error => exact ⟨error, rfl⟩
    | ok beginning =>
        obtain ⟨hbeginning, -⟩ := Message.ofBytes_eq_ok_iff.mp hfirst
        exact absurd (Envelope.rootEnds_of_read hbeginning) (not_rootEnds_of_lt hstop hcut)
  · intro hbetween hopen
    exact Message.ofBytes_eq_error_iff.mpr (Envelope.read_eq_truncated hread hbetween hopen)

/-- A message that is cut after a comment in its body, which holds what looks like ends. -/
theorem ofBytes_of_cut_comment :
    ∃ first second message,
      first = Bytes.ofAscii "<Envelope xmlns=\"" ++ Version.uriBytes .v1_1 ++
        Bytes.ofAscii "\"><Body><!--</Body></Envelope>-->" ∧
      second = Bytes.ofAscii "</Body></Envelope>\n" ∧
      Message.ofBytes .v1_1 (first ++ second) = .ok message ∧
      rootEnd? (first ++ second) = some 109 ∧
      Message.ofBytes .v1_1 first = .error .truncated := by
  let first := Bytes.ofAscii "<Envelope xmlns=\"" ++ Version.uriBytes .v1_1 ++
    Bytes.ofAscii "\"><Body><!--</Body></Envelope>-->"
  let second := Bytes.ofAscii "</Body></Envelope>\n"
  have hread : Envelope.read .v1_1 (first ++ second) = .ok ⟨none, none⟩ := rfl
  obtain ⟨message, haccept, -⟩ := Message.exists_ofBytes hread
  have hend : rootEnd? (first ++ second) = some 109 := by decide +kernel
  obtain ⟨stop, hstop, -, hcut⟩ := ofBytes_of_cut haccept
  obtain rfl : 109 = stop := Option.some.inj (hend.symm.trans hstop)
  have hbetween : BetweenEvents first second := ⟨[], by decide +kernel, .inl rfl⟩
  have hopen : RootOpen (Document.read first).events := ⟨1, by decide +kernel⟩
  exact ⟨first, second, message, rfl, rfl, haccept, hend,
    (hcut first second rfl (by decide)).2 hbetween hopen⟩

end KerberosHttp.Soap
