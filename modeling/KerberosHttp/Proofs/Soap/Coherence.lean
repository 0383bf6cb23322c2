import KerberosHttp.Proofs.Soap.EmptyTags
import KerberosHttp.Proofs.Xml.Unended

/-!
# The states that a pass comes to

A pass keeps a path and five marks: whether it saw an envelope and a body, the operation,
the fault with its text, and how many reasons have begun.  Not every combination of them
can come about.  This file says which hold together in every state that a pass comes to,
after any events, and which of them are final.

## Strategy

That the marks agree with each other is not kept by an event on its own: an operation asks
whether a body was seen, and that was marked when the body began.  `Coherent` therefore also
says what the elements that are open have left behind:

```text
an envelope is open    it was seen          so a body is seen only after an envelope
a body is open         it was seen          so an operation is known only after a body
a reason is open       it was counted       so no text of a reason comes before a count
```

The last line is part of `Regular`.  It survives the beginning of a fault because a fault
begins where two elements are open, and a reason is further in.

One event keeps all this (`Steps.coherent`), so it holds after every run
(`coherent_of_run`).  That marks are final needs no such condition (`Steps.keeps`).

## Main statement

* `marks_agree`: in every state of a pass the path is that of the open elements, the marks
  agree with it and with each other, and no later event takes one back.
-/

namespace KerberosHttp.Soap

variable {version : Version}

/-- The path after some events is that of the elements that have not ended. -/
theorem Path.ofEvents_of_unended {names : List Xml.ElementName} {events : List Xml.Event}
    (hopen : Xml.Unended names events) :
    Path.ofEvents version events = names.map (Scan.ancestor version) := by
  induction hopen with
  | none hspells => exact after_of_spells hspells []
  | @inside names before name content inner _ hspells ih =>
      calc Path.ofEvents version (before ++ .start name :: inner)
          = inner.foldl (Path.after version)
              (Scan.ancestor version name :: Path.ofEvents version before) := by
            rw [Path.ofEvents, List.foldl_append]
            rfl
        _ = Scan.ancestor version name :: Path.ofEvents version before :=
            after_of_spells hspells _
        _ = (name :: names).map (Scan.ancestor version) := by rw [ih, List.map_cons]

namespace Scan

/-! ## What the marks say of each other -/

/-- What one event keeps: the marks agree with each other and with the elements that are
open. -/
structure Coherent (version : Version) (scan : Scan) : Prop where
  /-- The outermost element is an envelope, and it was seen. -/
  rooted : ∀ root, [root] <:+ scan.path → root = ⟨"Envelope", true⟩ ∧ scan.sawEnvelope = true
  /-- A body that is open was seen. -/
  bodied : ∀ body root, [body, root] <:+ scan.path → body.isBody = true → scan.sawBody = true
  enveloped : scan.sawBody = true → scan.sawEnvelope = true
  operated : scan.operation ≠ none → scan.sawBody = true
  faulty : scan.fault.isSome → scan.operation = some "Fault"
  reasoned : 0 < scan.reasons → scan.fault.isSome
  regular : scan.Regular version

theorem coherent_start : start.Coherent version where
  rooted _ hsuffix := absurd hsuffix.length_le (by simp [start])
  bodied _ _ hsuffix := absurd hsuffix.length_le (by simp [start])
  enveloped := nofun
  operated := nofun
  faulty := nofun
  reasoned := nofun
  regular := regular_start

theorem Enters.coherent {scan entered : Scan} {name : Xml.ElementName}
    (henters : Enters version scan name entered) (hcoherent : scan.Coherent version) :
    entered.Coherent version := by
  have hregular := henters.regular hcoherent.regular
  obtain ⟨hrooted, hbodied, henveloped, hoperated, hfaulty, hreasoned, hbefore⟩ := hcoherent
  cases henters with
  | root =>
      exact ⟨fun root hsuffix => ⟨(hrooted root hsuffix).1, rfl⟩, hbodied, fun _ => rfl, hoperated,
        hfaulty, hreasoned, hregular⟩
  | @child root hpath =>
      have hsaw : scan.sawEnvelope = true := (hrooted root (hpath ▸ List.suffix_refl _)).2
      refine ⟨hrooted, fun body root hsuffix hbody => ?_, fun _ => hsaw, fun hsome => ?_, hfaulty,
        hreasoned, hregular⟩
      · simp [hbodied body root hsuffix hbody]
      · simp [hoperated hsome]
  | @operation body root hpath hbody hnone =>
      have hsaw : scan.sawBody = true := hbodied body root (hpath ▸ List.suffix_refl _) hbody
      have hfault : scan.fault = none := by
        by_contra hsome
        exact hbefore.told (Option.isSome_iff_ne_none.mpr hsome) hnone
      refine ⟨hrooted, hbodied, henveloped, fun _ => hsaw, fun hsome => ?_, fun hcounted => ?_,
        hregular⟩
      · by_cases hname : IsNamed version "Fault" name
        · rw [hname.1]
        · simp [hname, hfault] at hsome
      · exact absurd (hreasoned hcounted) (by simp [hfault])
  | indifferent => exact ⟨hrooted, hbodied, henveloped, hoperated, hfaulty, hreasoned, hregular⟩

/-- An element that begins leaves a mark if it is an envelope or a body. -/
theorem Enters.leaves_mark {scan entered : Scan} {name : Xml.ElementName}
    (henters : Enters version scan name entered) :
    (entered.path = [] → IsNamed version "Envelope" name ∧ entered.sawEnvelope = true) ∧
      ∀ root, entered.path = [root] → IsNamed version "Body" name → entered.sawBody = true := by
  cases henters with
  | root hpath _ hname => exact ⟨fun _ => ⟨hname, rfl⟩, by simp [hpath]⟩
  | child hpath => exact ⟨by simp [hpath], fun _ _ hname => by simp [hname]⟩
  | operation hpath => exact ⟨by simp [hpath], by simp [hpath]⟩
  | indifferent hplace =>
      have hbelow := hplace.below
      refine ⟨fun hpath => ?_, fun root hpath _ => ?_⟩
      · simp [hpath] at hbelow
      · simp [hpath] at hbelow

/-- An element may be opened that has left its mark. -/
theorem Coherent.push {scan : Scan} (hcoherent : scan.Coherent version) {name : Xml.ElementName}
    (hroot : scan.path = [] → IsNamed version "Envelope" name ∧ scan.sawEnvelope = true)
    (hchild : ∀ root, scan.path = [root] → IsNamed version "Body" name → scan.sawBody = true) :
    (scan.push version name).Coherent version := by
  have hregular := hcoherent.regular.push name
  rw [push_eq_of_begins] at hregular ⊢
  refine ⟨fun root hsuffix => ?_, fun body root hsuffix hbody => ?_, hcoherent.enveloped,
    hcoherent.operated, hcoherent.faulty, fun hcounted => ?_, hregular⟩
  · rcases List.suffix_cons_iff.mp hsuffix with hsame | hsuffix
    · obtain ⟨rfl, hpath⟩ := List.cons.inj hsame
      obtain ⟨⟨hlocal, hspace⟩, hsaw⟩ := hroot hpath.symm
      exact ⟨by simp [ancestor, hlocal, hspace], hsaw⟩
    · exact hcoherent.rooted root hsuffix
  · rcases List.suffix_cons_iff.mp hsuffix with hsame | hsuffix
    · obtain ⟨rfl, hpath⟩ := List.cons.inj hsame
      exact hchild root hpath.symm (isBody_ancestor.mp hbody)
    · exact hcoherent.bodied body root hsuffix hbody
  · by_cases hbegins : scan.BeginsReason version name
    · exact hbegins.1
    · rw [if_neg hbegins] at hcounted
      exact hcoherent.reasoned hcounted

theorem Steps.coherent {scan next : Scan} {event : Xml.Event}
    (hsteps : Steps version scan event next) (hcoherent : scan.Coherent version) :
    next.Coherent version := by
  have hregular := hsteps.regular hcoherent.regular
  cases hsteps with
  | start henters =>
      obtain ⟨hroot, hchild⟩ := henters.leaves_mark
      exact (henters.coherent hcoherent).push hroot hchild
  | empty henters => exact henters.coherent hcoherent
  | close =>
      have htail := List.tail_suffix scan.path
      exact ⟨fun root hsuffix => hcoherent.rooted root (hsuffix.trans htail),
        fun body root hsuffix => hcoherent.bodied body root (hsuffix.trans htail),
        hcoherent.enveloped, hcoherent.operated, hcoherent.faulty, hcoherent.reasoned, hregular⟩
  | idle => exact hcoherent
  | text =>
      rw [append_eq] at hregular ⊢
      exact ⟨hcoherent.rooted, hcoherent.bodied, hcoherent.enveloped, hcoherent.operated,
        fun hsome => hcoherent.faulty (by simpa using hsome),
        fun hcounted => by simpa using hcoherent.reasoned hcounted, hregular⟩

theorem coherent_of_run {before : List Xml.Event} {scan : Scan}
    (hrun : start.run version before = .ok scan) : scan.Coherent version :=
  holds_of_run Steps.coherent hrun coherent_start

/-! ## Marks are final -/

/-- What a state leaves to all that come after it. -/
structure Keeps (scan later : Scan) : Prop where
  sawEnvelope : scan.sawEnvelope = true → later.sawEnvelope = true
  sawBody : scan.sawBody = true → later.sawBody = true
  operation : ∀ name, scan.operation = some name → later.operation = some name
  fault : scan.fault.isSome → later.fault.isSome

namespace Keeps

theorem refl (scan : Scan) : scan.Keeps scan := ⟨id, id, fun _ => id, id⟩

theorem trans {scan middle final : Scan} (hfirst : scan.Keeps middle)
    (hlast : middle.Keeps final) : scan.Keeps final where
  sawEnvelope := hlast.sawEnvelope ∘ hfirst.sawEnvelope
  sawBody := hlast.sawBody ∘ hfirst.sawBody
  operation name := hlast.operation name ∘ hfirst.operation name
  fault := hlast.fault ∘ hfirst.fault

end Keeps

theorem Enters.keeps {scan entered : Scan} {name : Xml.ElementName}
    (henters : Enters version scan name entered) : scan.Keeps entered := by
  cases henters with
  | root => exact ⟨fun _ => rfl, id, fun _ => id, id⟩
  | child => exact ⟨id, fun hsaw => by simp [hsaw], fun _ => id, id⟩
  | operation _ _ hnone =>
      refine ⟨id, id, fun known hknown => ?_, fun hsome => ?_⟩
      · exact absurd (hnone.symm.trans hknown) (Option.some_ne_none known).symm
      · -- Even here a fault that is present stays, though it would lose its text.
        by_cases hname : IsNamed version "Fault" name
        · simp [hname]
        · simpa [hname] using hsome
  | indifferent => exact .refl _

theorem Steps.keeps {scan next : Scan} {event : Xml.Event}
    (hsteps : Steps version scan event next) : scan.Keeps next := by
  cases hsteps with
  | @start name entered henters =>
      have hpush : entered.Keeps (entered.push version name) := by
        rw [push_eq]
        exact ⟨id, id, fun _ => id, id⟩
      exact henters.keeps.trans hpush
  | empty henters => exact henters.keeps
  | close => exact ⟨id, id, fun _ => id, id⟩
  | idle => exact .refl _
  | text =>
      rw [append_eq]
      exact ⟨id, id, fun _ => id, fun hsome => by simpa using hsome⟩

theorem keeps_of_run {scan final : Scan} {events : List Xml.Event}
    (hrun : scan.run version events = .ok final) : scan.Keeps final :=
  holds_of_run (motive := scan.Keeps) (fun hsteps hkeeps => hkeeps.trans hsteps.keeps) hrun
    (.refl scan)

/-! ## Every state of a pass -/

/-- **The marks of a pass agree.**  Let a pass come to a state by events of which every end
comes while an element is open.  Then its path lists the elements that have not ended, the
innermost first.  If there are any, the outermost is an envelope, and the envelope was seen.
A body is seen only after an envelope, an operation is known only after a body, a fault is
present only if the operation is `Fault`, reasons are counted only if a fault is present, and
a reason has text only if one was counted.  Whatever the pass reads on, what it saw, the
operation and the presence of the fault stay. -/
theorem marks_agree (version : Version) {before : List Xml.Event} {scan : Scan}
    (hnested : Xml.Nested before) (hrun : start.run version before = .ok scan) :
    ((∃ names, Xml.Unended names before) ∧
      ∀ names, Xml.Unended names before → scan.path = names.map (ancestor version)) ∧
    (scan.path ≠ [] →
      scan.path.getLast? = some ⟨"Envelope", true⟩ ∧ scan.sawEnvelope = true) ∧
    (scan.sawBody = true → scan.sawEnvelope = true) ∧
    (scan.operation ≠ none → scan.sawBody = true) ∧
    (scan.fault.isSome → scan.operation = some "Fault") ∧
    (0 < scan.reasons → scan.fault.isSome) ∧
    (∀ fault, scan.fault = some fault → fault.reason ≠ "" → 1 ≤ scan.reasons) ∧
    ∀ after final, scan.run version after = .ok final → scan.Keeps final := by
  have hcoherent := coherent_of_run hrun
  refine ⟨⟨Xml.exists_unended_iff.mpr hnested, fun names hopen => ?_⟩, fun hpath => ?_,
    hcoherent.enveloped, hcoherent.operated, hcoherent.faulty, hcoherent.reasoned,
    fun fault hfault hworded => ?_, fun after final => keeps_of_run⟩
  · rw [path_of_run hrun, Path.ofEvents_of_unended hopen]
  · have hends := List.dropLast_concat_getLast hpath
    obtain ⟨hroot, hsaw⟩ := hcoherent.rooted (scan.path.getLast hpath) ⟨_, hends⟩
    exact ⟨by rw [List.getLast?_eq_some_getLast hpath, hroot], hsaw⟩
  · by_contra hzero
    exact hworded (hcoherent.regular.silent fault hfault (by omega))

section OpenReason

/-- A fault up to the middle of its first reason, after a body that has ended. -/
private def openReason : List Xml.Event :=
  [.other, .start (Version.named .v1_2 "Envelope"), .start (Version.named .v1_2 "Header"),
    .close, .empty (Version.named .v1_2 "Body"), .start (Version.named .v1_2 "Body"),
    .start (Version.named .v1_2 "Fault"), .start ⟨"Reason", none⟩, .empty ⟨"Text", none⟩,
    .start (Version.named .v1_2 "Text"), .text (Bytes.ofAscii "no")]

/-- The state in which a pass is then. -/
private def inReason : Scan :=
  ⟨[⟨"Text", true⟩, ⟨"Reason", false⟩, ⟨"Fault", true⟩, ⟨"Body", true⟩, ⟨"Envelope", true⟩],
    true, true, some "Fault", some ⟨"", "no"⟩, 1⟩

theorem marks_agree_openReason :
    Xml.Nested openReason ∧ start.run .v1_2 openReason = .ok inReason ∧
      (∃ names, Xml.Unended names openReason ∧ inReason.path = names.map (ancestor .v1_2)) ∧
      inReason.path.getLast? = some ⟨"Envelope", true⟩ ∧ inReason.sawEnvelope = true ∧
      inReason.sawBody = true ∧ inReason.operation = some "Fault" ∧ 1 ≤ inReason.reasons ∧
      ∀ after final, inReason.run .v1_2 after = .ok final →
        final.operation = some "Fault" ∧ final.fault.isSome := by
  have hnested : Xml.Nested openReason := by decide
  have hrun : start.run .v1_2 openReason = .ok inReason := by decide
  obtain ⟨⟨⟨names, hopen⟩, hpath⟩, hrooted, -, hoperated, hfaulty, -, hworded, hkeeps⟩ :=
    marks_agree .v1_2 hnested hrun
  obtain ⟨hroot, hsaw⟩ := hrooted (List.cons_ne_nil _ _)
  have hoperation : inReason.operation = some "Fault" := hfaulty rfl
  refine ⟨hnested, hrun, ⟨names, hopen, hpath names hopen⟩, hroot, hsaw,
    hoperated (Option.some_ne_none _), hoperation, hworded _ rfl (by decide), ?_⟩
  intro after final hafter
  have hkept := hkeeps after final hafter
  exact ⟨hkept.operation _ hoperation, hkept.fault rfl⟩

end OpenReason

end Scan

end KerberosHttp.Soap
