import KerberosHttp.Proofs.Soap.Scan

/-!
# What an envelope says, told by its tree

The pass of `Scan` reads a document once and keeps five marks.  This file says what
it finds without a pass: a document is an envelope exactly if its tree is one, and
its operation is the first of the elements that stand directly in the bodies.

## Strategy

`Tells` is what the marks of a pass amount to: whether an envelope and a body were
seen, and which element came first in the bodies.  One lemma for each depth says
how a whole content changes it:

```text
outside the bodies, or deeper   nothing                             Tells.indifferent
in a body                       the first element, if none was yet  Tells.inBody
in the root                     the bodies and what is in them      Tells.inEnvelope
in the document                 the root, which must be the only    Tells.inDocument
```

A document that was read to its end has no open element, so it has a tree
(`Xml.Content.exists_ofEvents?`), and the last lemma applies to all of it.
-/

namespace KerberosHttp.Soap

/-- The names of the elements that stand directly in the bodies of an envelope, in
order. -/
def bodyChildren (version : Version) (inside : Xml.Content) : List Xml.ElementName :=
  (inside.elements.filter fun child => IsNamed version "Body" child.name).flatMap fun body =>
    body.content.elements.map (·.name)

namespace Scan

variable {version : Version}

/-- What a pass has seen: an envelope, a body, and the first element in the bodies. -/
structure Tells (version : Version) (envelope body : Bool) (first : Option Xml.ElementName)
    (scan : Scan) : Prop where
  sawEnvelope : scan.sawEnvelope = envelope
  sawBody : scan.sawBody = body
  operation : scan.operation = first.map (·.localName)
  fault : scan.fault.isSome = first.any fun name => decide (IsNamed version "Fault" name)

variable {envelope body : Bool} {first : Option Xml.ElementName}

theorem tells_start : start.Tells version false false none := ⟨rfl, rfl, rfl, rfl⟩

namespace Tells

/-- Beginning an element changes only the path and the count of reasons. -/
theorem push_iff {scan : Scan} (name : Xml.ElementName) :
    (scan.push version name).Tells version envelope body first ↔
      scan.Tells version envelope body first := by
  rw [push_eq]
  exact ⟨fun ⟨hsaw, hbody, hoperation, hfault⟩ => ⟨hsaw, hbody, hoperation, hfault⟩,
    fun ⟨hsaw, hbody, hoperation, hfault⟩ => ⟨hsaw, hbody, hoperation, hfault⟩⟩

theorem withPath {scan : Scan} (htells : scan.Tells version envelope body first) (path : Path) :
    ({ scan with path := path } : Scan).Tells version envelope body first :=
  ⟨htells.sawEnvelope, htells.sawBody, htells.operation, htells.fault⟩

/-- A leaf tells nothing. -/
theorem leaf {scan next : Scan} (htells : scan.Tells version envelope body first)
    {leaf : Xml.Leaf} (hsteps : Steps version scan leaf.event next) :
    next.Tells version envelope body first := by
  obtain ⟨change, rfl⟩ := hsteps.of_leaf
  exact ⟨htells.sawEnvelope, htells.sawBody, htells.operation, by simp [htells.fault]⟩

/-- An operation is known exactly if a first element is. -/
theorem operation_ne_none {scan : Scan} {name : Xml.ElementName}
    (htells : scan.Tells version envelope body (some name)) : scan.operation ≠ none := by
  simp [htells.operation]

end Tells

/-! ## Outside the bodies, and deeper -/

theorem Indifferent.enters {scan next : Scan} (hplace : scan.Indifferent)
    {name : Xml.ElementName} (henters : Enters version scan name next) : next = scan := by
  have henter := enter_eq_ok_iff.mpr henters
  rw [enter_indifferent hplace] at henter
  cases henter
  rfl

theorem Indifferent.push {scan : Scan} (hplace : scan.Indifferent) (name : Xml.ElementName) :
    (scan.push version name).Indifferent := by
  have hbelow := hplace.below
  refine ⟨by rw [push_path, List.length_cons]; omega, fun body root hpath => ?_⟩
  have hlength := congrArg List.length hpath
  rw [push_path, List.length_cons] at hlength
  simp only [List.length_cons, List.length_nil] at hlength
  omega

/-- A place stays indifferent: an operation that is known stays known. -/
theorem Indifferent.after {scan next : Scan} (hplace : scan.Indifferent)
    (hpath : next.path = scan.path)
    (hsettled : scan.operation ≠ none → next.operation = scan.operation) : next.Indifferent := by
  refine ⟨hpath ▸ hplace.below, fun body root hnext hbody => ?_⟩
  have hsome := hplace.told body root (hpath ▸ hnext) hbody
  rwa [hsettled hsome]

theorem Tells.indifferent {content : Xml.Content} {events : List Xml.Event}
    (hspells : content.Spells events) {scan final : Scan} (hplace : scan.Indifferent)
    (htells : scan.Tells version envelope body first)
    (hrun : scan.run version events = .ok final) : final.Tells version envelope body first := by
  induction hspells generalizing scan final with
  | nil =>
      cases hrun
      exact htells
  | empty _ ih =>
      obtain ⟨next, hstep, hrest⟩ := run_cons_eq_ok_iff.mp hrun
      rw [hplace.enters (steps_empty_iff.mp hstep)] at hrest
      exact ih hplace htells hrest
  | @element name _ _ _ _ hinside _ ihinside ihrest =>
      obtain ⟨entered, ended, henters, hinner, hrest⟩ := (run_element_eq_ok_iff hinside).mp hrun
      rw [hplace.enters henters] at hinner
      have hended := ihinside (hplace.push _) ((Tells.push_iff _).mpr htells) hinner
      have hsettled : scan.operation ≠ none → ended.operation = scan.operation := by
        intro hsome
        have hpushed : (scan.push version name).operation = scan.operation :=
          push_operation scan name
        exact ((settled_of_run hinner (hpushed ▸ hsome)).1).trans hpushed
      have hafter : ({ ended with path := scan.path } : Scan).Indifferent :=
        hplace.after rfl hsettled
      exact ihrest hafter (hended.withPath _) hrest
  | leaf _ ih =>
      obtain ⟨next, hstep, hrest⟩ := run_cons_eq_ok_iff.mp hrun
      have hpath : next.path = scan.path := by rw [hstep.path_eq, Path.after_leaf]
      exact ih (hplace.after hpath fun hsome => (hstep.settled hsome).1) (htells.leaf hstep) hrest

/-! ## In a body -/

/-- A place in a body after its first element. -/
theorem Tells.indifferent_of_some {scan : Scan} {name : Xml.ElementName}
    (htells : scan.Tells version envelope body (some name)) (hbelow : 2 ≤ scan.path.length) :
    scan.Indifferent :=
  ⟨hbelow, fun _ _ _ _ => htells.operation_ne_none⟩

/-- The first element in a body. -/
theorem Tells.enters_first {scan next : Scan} {name : Xml.ElementName} {inner root : Ancestor}
    (htells : scan.Tells version envelope body none) (hpath : scan.path = [inner, root])
    (hbody : inner.isBody = true) (henters : Enters version scan name next) :
    next.Tells version envelope body (some name) := by
  have hnone : scan.operation = none := by simp [htells.operation]
  have henter := enter_eq_ok_iff.mpr henters
  rw [enter_operation hpath hbody hnone] at henter
  cases henter
  refine ⟨htells.sawEnvelope, htells.sawBody, rfl, ?_⟩
  have hfault : scan.fault.isSome = false := by simp [htells.fault]
  by_cases hname : IsNamed version "Fault" name <;> simp [hname, hfault]

theorem Tells.inBody {content : Xml.Content} {events : List Xml.Event}
    (hspells : content.Spells events) {scan final : Scan} {inner root : Ancestor}
    (hpath : scan.path = [inner, root]) (hbody : inner.isBody = true)
    (htells : scan.Tells version envelope body first)
    (hrun : scan.run version events = .ok final) :
    final.Tells version envelope body (first.or (content.elements.map (·.name)).head?) := by
  -- Once there is a first element, a body is no different from any deeper place.
  cases first with
  | some name =>
      have hplace := htells.indifferent_of_some (by simp [hpath])
      exact htells.indifferent hspells hplace hrun
  | none =>
      induction hspells generalizing scan final with
      | nil =>
          cases hrun
          exact htells
      | empty hafter _ =>
          obtain ⟨next, hstep, hrest⟩ := run_cons_eq_ok_iff.mp hrun
          have henters := steps_empty_iff.mp hstep
          have hfirst := htells.enters_first hpath hbody henters
          have hplace := hfirst.indifferent_of_some (by simp [henters.path_eq, hpath])
          exact Tells.indifferent hafter hplace hfirst hrest
      | @element name _ _ _ _ hinside hafter _ _ =>
          obtain ⟨entered, ended, henters, hinner, hrest⟩ :=
            (run_element_eq_ok_iff hinside).mp hrun
          have hfirst := htells.enters_first hpath hbody henters
          have hplace := hfirst.indifferent_of_some (by simp [henters.path_eq, hpath])
          have hpushed := (Tells.push_iff name).mpr hfirst
          have hended := Tells.indifferent hinside (hplace.push _) hpushed hinner
          have hback := hended.withPath scan.path
          exact Tells.indifferent hafter (hback.indifferent_of_some (by simp [hpath])) hback hrest
      | leaf _ ih =>
          obtain ⟨next, hstep, hrest⟩ := run_cons_eq_ok_iff.mp hrun
          exact ih (by rw [hstep.path_eq, Path.after_leaf, hpath]) hrest (htells.leaf hstep)

/-! ## In the root -/

@[simp] theorem bodyChildren_nil : bodyChildren version .nil = [] := rfl

theorem bodyChildren_element (name : Xml.ElementName) (inside rest : Xml.Content) :
    bodyChildren version (.element name inside rest) =
      (if IsNamed version "Body" name then inside.elements.map (·.name) else []) ++
        bodyChildren version rest := by
  by_cases hname : IsNamed version "Body" name <;>
    simp [bodyChildren, Xml.Content.elements, hname]

/-- A child of the root, its name and its content. -/
theorem Tells.child {inside : Xml.Content} {inner : List Xml.Event}
    (hinside : inside.Spells inner) {scan entered ended : Scan} {name : Xml.ElementName}
    {root : Ancestor} (hpath : scan.path = [root])
    (htells : scan.Tells version envelope body first)
    (henters : Enters version scan name entered)
    (hinner : (entered.push version name).run version inner = .ok ended) :
    ended.Tells version envelope (body || decide (IsNamed version "Body" name))
      (first.or
        (if IsNamed version "Body" name then inside.elements.map (·.name) else []).head?) := by
  have henter := enter_eq_ok_iff.mpr henters
  rw [enter_child hpath] at henter
  cases henter
  have hentered : ({ scan with
      sawBody := scan.sawBody || decide (IsNamed version "Body" name) } : Scan).Tells version
        envelope (body || decide (IsNamed version "Body" name)) first :=
    ⟨htells.sawEnvelope, by rw [htells.sawBody], htells.operation, htells.fault⟩
  have hpushed := (Tells.push_iff name).mpr hentered
  by_cases hname : IsNamed version "Body" name
  · rw [if_pos hname]
    exact hpushed.inBody hinside (by rw [push_path, hpath]) (isBody_ancestor.mpr hname) hinner
  · -- No body, so the place below it is not that of a first element whatever is known.
    rw [if_neg hname, List.head?_nil, Option.or_none]
    refine hpushed.indifferent hinside ⟨by simp [hpath], fun other outer hother hbody => ?_⟩ hinner
    rw [push_path, hpath, List.cons.injEq] at hother
    exact absurd (isBody_ancestor.mp (hother.1 ▸ hbody)) hname

theorem Tells.inEnvelope {content : Xml.Content} {events : List Xml.Event}
    (hspells : content.Spells events) {scan final : Scan} {root : Ancestor}
    (hpath : scan.path = [root]) (htells : scan.Tells version envelope body first)
    (hrun : scan.run version events = .ok final) :
    final.Tells version envelope
      (body || content.elements.any fun child => decide (IsNamed version "Body" child.name))
      (first.or (bodyChildren version content).head?) := by
  induction hspells generalizing scan final body first with
  | nil =>
      cases hrun
      simpa [Xml.Content.elements] using htells
  | @empty name rest after _ ih =>
      obtain ⟨next, hstep, hrest⟩ := run_cons_eq_ok_iff.mp hrun
      have henters := steps_empty_iff.mp hstep
      have hended := (Tells.push_iff name).mp (htells.child .nil hpath henters rfl)
      have hfinal := ih (by rw [henters.path_eq, hpath]) hended hrest
      rw [bodyChildren_element, List.head?_append, ← Option.or_assoc]
      simpa [Xml.Content.elements, Bool.or_assoc] using hfinal
  | element hinside _ _ ih =>
      obtain ⟨entered, ended, henters, hinner, hrest⟩ := (run_element_eq_ok_iff hinside).mp hrun
      have hended := htells.child hinside hpath henters hinner
      have hfinal := ih (by rw [hpath]) (hended.withPath scan.path) hrest
      rw [bodyChildren_element, List.head?_append, ← Option.or_assoc]
      simpa [Xml.Content.elements, Bool.or_assoc] using hfinal
  | leaf _ ih =>
      obtain ⟨next, hstep, hrest⟩ := run_cons_eq_ok_iff.mp hrun
      exact ih (by rw [hstep.path_eq, Path.after_leaf, hpath]) (htells.leaf hstep) hrest

/-! ## In the document -/

/-- After the root no element may follow. -/
theorem Tells.afterRoot {content : Xml.Content} {events : List Xml.Event}
    (hspells : content.Spells events) {scan final : Scan} (hpath : scan.path = [])
    (htells : scan.Tells version true body first) (hrun : scan.run version events = .ok final) :
    content.elements = [] ∧ final.Tells version true body first := by
  induction hspells generalizing scan final with
  | nil =>
      cases hrun
      exact ⟨rfl, htells⟩
  | empty _ _ =>
      obtain ⟨next, hstep, -⟩ := run_cons_eq_ok_iff.mp hrun
      have hfirst := ((steps_empty_iff.mp hstep).of_root hpath).1
      exact absurd (hfirst.symm.trans htells.sawEnvelope) (by decide)
  | element hinside _ _ _ =>
      obtain ⟨entered, ended, henters, -⟩ := (run_element_eq_ok_iff hinside).mp hrun
      exact absurd ((henters.of_root hpath).1.symm.trans htells.sawEnvelope) (by decide)
  | leaf _ ih =>
      obtain ⟨next, hstep, hrest⟩ := run_cons_eq_ok_iff.mp hrun
      exact ih (by rw [hstep.path_eq, Path.after_leaf, hpath]) (htells.leaf hstep) hrest

/-- The root, its name and its content. -/
theorem Tells.root {inside : Xml.Content} {inner : List Xml.Event}
    (hinside : inside.Spells inner) {scan entered ended : Scan} {name : Xml.ElementName}
    (hpath : scan.path = []) (htells : scan.Tells version false false none)
    (henters : Enters version scan name entered)
    (hinner : (entered.push version name).run version inner = .ok ended) :
    IsNamed version "Envelope" name ∧
      ended.Tells version true
        (inside.elements.any fun child => decide (IsNamed version "Body" child.name))
        (bodyChildren version inside).head? := by
  obtain ⟨-, hname, rfl⟩ := henters.of_root hpath
  have hentered : ({ scan with sawEnvelope := true } : Scan).Tells version true false none :=
    ⟨rfl, htells.sawBody, htells.operation, htells.fault⟩
  refine ⟨hname, ?_⟩
  simpa using ((Tells.push_iff name).mpr hentered).inEnvelope hinside
    (by rw [push_path, hpath]) hinner

/-- A document has no element, or one that is an envelope. -/
theorem Tells.inDocument {content : Xml.Content} {events : List Xml.Event}
    (hspells : content.Spells events) {scan final : Scan} (hpath : scan.path = [])
    (htells : scan.Tells version false false none) (hrun : scan.run version events = .ok final) :
    (content.elements = [] ∧ final.Tells version false false none) ∨
      ∃ root, content.elements = [root] ∧ IsNamed version "Envelope" root.name ∧
        final.Tells version true
          (root.content.elements.any fun child => decide (IsNamed version "Body" child.name))
          (bodyChildren version root.content).head? := by
  induction hspells generalizing scan final with
  | nil =>
      cases hrun
      exact .inl ⟨rfl, htells⟩
  | @empty name _ _ hafter _ =>
      obtain ⟨next, hstep, hrest⟩ := run_cons_eq_ok_iff.mp hrun
      have henters := steps_empty_iff.mp hstep
      obtain ⟨hname, hended⟩ := htells.root .nil hpath henters rfl
      obtain ⟨hnone, hfinal⟩ := Tells.afterRoot hafter (henters.path_eq.trans hpath)
        ((Tells.push_iff name).mp hended) hrest
      exact .inr ⟨⟨name, .nil⟩, by rw [Xml.Content.elements, hnone], hname, hfinal⟩
  | @element name inside _ _ _ hinside hafter _ _ =>
      obtain ⟨entered, ended, henters, hinner, hrest⟩ := (run_element_eq_ok_iff hinside).mp hrun
      obtain ⟨hname, hended⟩ := htells.root hinside hpath henters hinner
      have hback := hended.withPath scan.path
      obtain ⟨hnone, hfinal⟩ := Tells.afterRoot hafter (by exact hpath) hback hrest
      exact .inr ⟨⟨name, inside⟩, by rw [Xml.Content.elements, hnone], hname, hfinal⟩
  | leaf _ ih =>
      obtain ⟨next, hstep, hrest⟩ := run_cons_eq_ok_iff.mp hrun
      exact ih (by rw [hstep.path_eq, Path.after_leaf, hpath]) (htells.leaf hstep) hrest

private theorem shape_cons {scan : Scan} {element : Xml.Element} {rest : List Xml.Element}
    (hshape : element :: rest = [] ∨
      scan.sawEnvelope = false ∧ ∃ root, element :: rest = [root]) :
    scan.sawEnvelope = false ∧ rest = [] := by
  rcases hshape with hnone | ⟨hfirst, root, hroot⟩
  · cases hnone
  · cases hroot
    exact ⟨hfirst, rfl⟩

/-- A document whose only element is an envelope is read to its end. -/
theorem exists_run_of_document {content : Xml.Content} {events : List Xml.Event}
    (hspells : content.Spells events) (hdoctype : Xml.Event.doctype ∉ events)
    (hdecodes : Xml.Decodes events) {scan : Scan} (hpath : scan.path = [])
    (hnames : ∀ root ∈ content.elements, IsNamed version "Envelope" root.name)
    (hshape : content.elements = [] ∨
      scan.sawEnvelope = false ∧ ∃ root, content.elements = [root]) :
    ∃ final, scan.run version events = .ok final := by
  induction hspells generalizing scan with
  | nil => exact ⟨scan, rfl⟩
  | @empty name rest after _ ih =>
      obtain ⟨hname, hothers⟩ := List.forall_mem_cons.mp hnames
      obtain ⟨hfirst, hrest⟩ := shape_cons hshape
      have hback : ({ scan with sawEnvelope := true } : Scan).path = [] := hpath
      obtain ⟨final, hrest⟩ := ih (fun hmem => hdoctype (List.mem_cons_of_mem _ hmem))
        (List.forall_mem_cons.mp hdecodes).2 hback hothers (.inl hrest)
      exact ⟨final, run_cons_eq_ok_iff.mpr ⟨_, .empty (.root hpath hfirst hname), hrest⟩⟩
  | @element name inside rest inner after hinside _ _ ih =>
      simp only [List.mem_cons, List.mem_append, reduceCtorEq, false_or, not_or] at hdoctype
      obtain ⟨hin, hafter⟩ := List.forall_mem_append.mp (List.forall_mem_cons.mp hdecodes).2
      obtain ⟨hname, hothers⟩ := List.forall_mem_cons.mp hnames
      obtain ⟨hfirst, hrest⟩ := shape_cons hshape
      have henters := Enters.root hpath hfirst hname
      have hpushed : (({ scan with sawEnvelope := true } : Scan).push version name).path ≠ [] := by
        simp
      obtain ⟨ended, hinner⟩ := exists_run_of_spells hinside hdoctype.1 hin hpushed
      have hback : ({ ended with path := scan.path } : Scan).path = [] := hpath
      obtain ⟨final, hrest⟩ := ih hdoctype.2 (List.forall_mem_cons.mp hafter).2 hback hothers
        (.inl hrest)
      exact ⟨final, (run_element_eq_ok_iff hinside).mpr ⟨_, ended, henters, hinner, hrest⟩⟩
  | @leaf leaf rest after _ ih =>
      rw [List.mem_cons, not_or] at hdoctype
      obtain ⟨hleaf, hafter⟩ := List.forall_mem_cons.mp hdecodes
      obtain ⟨next, hstep⟩ := exists_steps_leaf version scan
        (fun hsame => hdoctype.1 (by rw [hsame, Xml.Leaf.event])) hleaf
      obtain ⟨change, rfl⟩ := hstep.of_leaf
      have hback : ({ scan with fault := scan.fault.map change } : Scan).path = [] := hpath
      obtain ⟨final, hrest⟩ := ih hdoctype.2 hafter hback hnames hshape
      exact ⟨final, run_cons_eq_ok_iff.mpr ⟨_, hstep, hrest⟩⟩

end Scan

/-! ## The document as a whole -/

theorem Scan.finish_eq_ok_iff {scan : Scan} {envelope : Envelope} :
    scan.finish = .ok envelope ↔
      scan.path = [] ∧ scan.sawEnvelope = true ∧ scan.sawBody = true ∧
        envelope = ⟨scan.operation, scan.fault.map trimFault⟩ := by
  unfold finish
  by_cases hpath : scan.path = []
  · cases hsaw : scan.sawEnvelope <;> cases hbody : scan.sawBody <;> simp [hpath, eq_comm]
  · simp [hpath]

theorem Envelope.ofDocument_eq_ok_iff {version : Version} {events : List Xml.Event}
    {envelope : Envelope} :
    ofDocument version ⟨events, none⟩ = .ok envelope ↔
      ∃ scan, Scan.start.run version events = .ok scan ∧ scan.finish = .ok envelope := by
  unfold ofDocument
  cases hrun : Scan.start.run version events <;> simp

theorem Envelope.read_eq_ok_iff {version : Version} {content : Bytes} {envelope : Envelope} :
    read version content = .ok envelope ↔
      (Xml.Document.read content).failure = none ∧
        ∃ scan, Scan.start.run version (Xml.Document.read content).events = .ok scan ∧
          scan.finish = .ok envelope := by
  unfold read ofDocument
  cases hrun : Scan.start.run version (Xml.Document.read content).events with
  | error error => simp
  | ok scan => cases hfailure : (Xml.Document.read content).failure <;> simp

/-- What the pass finds in a document that has a tree. -/
theorem Envelope.tells_of_ofDocument {version : Version} {events : List Xml.Event}
    {envelope : Envelope} {content : Xml.Content}
    (hread : ofDocument version ⟨events, none⟩ = .ok envelope) (hspells : content.Spells events) :
    ∃ root, content.elements = [root] ∧ IsNamed version "Envelope" root.name ∧
      (root.content.elements.any fun child => decide (IsNamed version "Body" child.name)) = true ∧
      envelope.operation = (bodyChildren version root.content).head?.map (·.localName) ∧
      envelope.fault.isSome = (bodyChildren version root.content).head?.any fun name =>
        decide (IsNamed version "Fault" name) := by
  obtain ⟨scan, hrun, hfinish⟩ := ofDocument_eq_ok_iff.mp hread
  obtain ⟨-, hsaw, hbody, rfl⟩ := Scan.finish_eq_ok_iff.mp hfinish
  rcases Scan.Tells.inDocument hspells rfl Scan.tells_start hrun with
    ⟨-, htells⟩ | ⟨root, hroot, hname, htells⟩
  · exact absurd (hsaw.symm.trans htells.sawEnvelope) (by decide)
  · exact ⟨root, hroot, hname, htells.sawBody.symm.trans hbody, htells.operation,
      by rw [← htells.fault, Option.isSome_map]⟩

/-- A document that was read to its end leaves nothing open. -/
theorem Envelope.openAfter?_of_ofDocument {version : Version} {events : List Xml.Event}
    {envelope : Envelope} (hnested : Xml.Nested events)
    (hread : ofDocument version ⟨events, none⟩ = .ok envelope) :
    Xml.openAfter? 0 events = some 0 := by
  obtain ⟨scan, hrun, hfinish⟩ := ofDocument_eq_ok_iff.mp hread
  obtain ⟨hpath, -⟩ := Scan.finish_eq_ok_iff.mp hfinish
  obtain ⟨depth, hopen⟩ := Option.isSome_iff_exists.mp hnested
  have hdepth := Scan.length_path_of_run hrun hopen
  rw [hpath, List.length_nil] at hdepth
  rw [hopen, hdepth]

/-- A document that was read to its end has a tree. -/
theorem Envelope.exists_spells_of_ofDocument {version : Version} {events : List Xml.Event}
    {envelope : Envelope} (hnested : Xml.Nested events)
    (hread : ofDocument version ⟨events, none⟩ = .ok envelope) :
    ∃ content, Xml.Content.Spells content events := by
  obtain ⟨content, htree⟩ := Xml.Content.exists_ofEvents? (openAfter?_of_ofDocument hnested hread)
  exact ⟨content, Xml.Content.spells_of_ofEvents? htree⟩

/-- What octets say that are an envelope: they are read to their end, and have a tree. -/
theorem Envelope.exists_tree_of_read {version : Version} {content : Bytes} {envelope : Envelope}
    (hread : read version content = .ok envelope) :
    (Xml.Document.read content).failure = none ∧
      ∃ (tree : Xml.Content) (root : Xml.Element),
        tree.Spells (Xml.Document.read content).events ∧ tree.elements = [root] ∧
          (root.content.elements.any fun child =>
            decide (IsNamed version "Body" child.name)) = true := by
  obtain ⟨hfine, hrun⟩ := read_eq_ok_iff.mp hread
  have hdocument := ofDocument_eq_ok_iff.mpr hrun
  obtain ⟨tree, hspells⟩ := exists_spells_of_ofDocument (Xml.Document.nested_read _) hdocument
  obtain ⟨root, hroot, -, hbody, -⟩ := tells_of_ofDocument hdocument hspells
  exact ⟨hfine, tree, root, hspells, hroot, hbody⟩

/-- A document whose tree is an envelope is accepted. -/
theorem Envelope.exists_ofDocument {version : Version} {events : List Xml.Event}
    {content : Xml.Content} {root child : Xml.Element} (hspells : content.Spells events)
    (hdoctype : Xml.Event.doctype ∉ events) (hdecodes : Xml.Decodes events)
    (hroot : content.elements = [root]) (hname : IsNamed version "Envelope" root.name)
    (hchild : child ∈ root.content.elements) (hbody : IsNamed version "Body" child.name) :
    ∃ envelope, ofDocument version ⟨events, none⟩ = .ok envelope := by
  have hnames : ∀ other ∈ content.elements, IsNamed version "Envelope" other.name := by
    intro other hother
    rw [hroot, List.mem_singleton] at hother
    exact hother ▸ hname
  obtain ⟨scan, hrun⟩ : ∃ scan, Scan.start.run version events = .ok scan :=
    Scan.exists_run_of_document hspells hdoctype hdecodes rfl hnames (.inr ⟨rfl, root, hroot⟩)
  have hpath : scan.path = [] := Scan.path_of_spells hspells hrun
  rcases Scan.Tells.inDocument hspells rfl Scan.tells_start hrun with
    ⟨hnone, -⟩ | ⟨other, hother, -, htells⟩
  · exact absurd (hnone.symm.trans hroot) (by simp)
  · obtain rfl : other = root := by simpa [hroot] using hother.symm
    have hsaw : scan.sawBody = true := by
      rw [htells.sawBody, List.any_eq_true]
      exact ⟨child, hchild, decide_eq_true hbody⟩
    exact ⟨_, ofDocument_eq_ok_iff.mpr
      ⟨scan, hrun, Scan.finish_eq_ok_iff.mpr ⟨hpath, htells.sawEnvelope, hsaw, rfl⟩⟩⟩

/-- **The pass and the tree agree.**  A document whose character data can be decoded is
an envelope exactly if it declares no document type, every element that began has
ended, its only element is named `Envelope` in the name space of the version, and one
of that element's children is named `Body` there.  The operation is then the local name
of the first of the elements that stand directly in those bodies, and the envelope
carries a fault exactly if that element is named `Fault` in the same name space. -/
theorem ofDocument_iff_tree (version : Version) (events : List Xml.Event)
    (hnested : Xml.Nested events) (hdecodes : Xml.Decodes events) :
    ((∃ envelope, Envelope.ofDocument version ⟨events, none⟩ = .ok envelope) ↔
      .doctype ∉ events ∧ ∃ content root, Xml.Content.Spells content events ∧
        content.elements = [root] ∧ IsNamed version "Envelope" root.name ∧
        ∃ child ∈ root.content.elements, IsNamed version "Body" child.name) ∧
    ∀ envelope content root, Envelope.ofDocument version ⟨events, none⟩ = .ok envelope →
      Xml.Content.Spells content events → content.elements = [root] →
        envelope.operation = (bodyChildren version root.content).head?.map (·.localName) ∧
        (envelope.fault.isSome ↔ ∃ name, (bodyChildren version root.content).head? = some name ∧
          IsNamed version "Fault" name) := by
  refine ⟨⟨?_, ?_⟩, ?_⟩
  · rintro ⟨envelope, hread⟩
    obtain ⟨scan, hrun, -⟩ := Envelope.ofDocument_eq_ok_iff.mp hread
    obtain ⟨content, hspells⟩ := Envelope.exists_spells_of_ofDocument hnested hread
    obtain ⟨root, hroot, hname, hbody, -⟩ := Envelope.tells_of_ofDocument hread hspells
    obtain ⟨child, hchild, hnamed⟩ := List.any_eq_true.mp hbody
    exact ⟨Scan.doctype_not_mem_of_run hrun, content, root, hspells, hroot, hname, child, hchild,
      of_decide_eq_true hnamed⟩
  · rintro ⟨hdoctype, content, root, hspells, hroot, hname, child, hchild, hbody⟩
    exact Envelope.exists_ofDocument hspells hdoctype hdecodes hroot hname hchild hbody
  · intro envelope content root hread hspells hroot
    obtain ⟨other, hother, -, -, hoperation, hfault⟩ :=
      Envelope.tells_of_ofDocument hread hspells
    obtain rfl : other = root := by simpa [hroot] using hother.symm
    refine ⟨hoperation, ?_⟩
    rw [hfault, Option.any_eq_true]
    simp

section Crowded

/-- The content of an envelope with a header that holds a body of its own, a body of no
name space with an operation in it, a body without elements, and a body with a fault. -/
private def crowded : Xml.Content :=
  .element (Version.named .v1_2 "Header") (.element (Version.named .v1_2 "Body") .nil .nil)
    (.element ⟨"Body", none⟩ (.element ⟨"Ping", none⟩ .nil .nil)
      (.element (Version.named .v1_2 "Body") .nil
        (.element (Version.named .v1_2 "Body")
          (.leaf (.text (Bytes.ofAscii " &lt; "))
            (.element (Version.named .v1_2 "Fault") .nil (.element ⟨"Late", none⟩ .nil .nil)))
          .nil)))

private def crowdedEvents : List Xml.Event :=
  [.other, .start (Version.named .v1_2 "Envelope"), .start (Version.named .v1_2 "Header"),
    .empty (Version.named .v1_2 "Body"), .close, .start ⟨"Body", none⟩, .empty ⟨"Ping", none⟩,
    .close, .empty (Version.named .v1_2 "Body"), .start (Version.named .v1_2 "Body"),
    .text (Bytes.ofAscii " &lt; "), .start (Version.named .v1_2 "Fault"), .close,
    .empty ⟨"Late", none⟩, .close, .close]

theorem ofDocument_iff_tree_crowded :
    Xml.Nested crowdedEvents ∧ Xml.Decodes crowdedEvents ∧
      ∃ envelope, Envelope.ofDocument .v1_2 ⟨crowdedEvents, none⟩ = .ok envelope ∧
        envelope.operation = some "Fault" ∧ envelope.fault.isSome := by
  have hnested : Xml.Nested crowdedEvents := by decide
  have hdecodes : Xml.Decodes crowdedEvents := by decide
  have hspells : Xml.Content.Spells
      (.leaf .other (.element (Version.named .v1_2 "Envelope") crowded .nil)) crowdedEvents :=
    Xml.Content.spells_of_ofEvents? rfl
  obtain ⟨haccepts, hfinds⟩ := ofDocument_iff_tree .v1_2 crowdedEvents hnested hdecodes
  obtain ⟨envelope, hread⟩ := haccepts.mpr ⟨by decide, _, _, hspells, rfl, by decide,
    ⟨Version.named .v1_2 "Body", .nil⟩, by decide, by decide⟩
  obtain ⟨hoperation, hfault⟩ := hfinds envelope _ _ hread hspells rfl
  exact ⟨hnested, hdecodes, envelope, hread, hoperation,
    hfault.mpr ⟨Version.named .v1_2 "Fault", by decide, by decide⟩⟩

end Crowded

end KerberosHttp.Soap
