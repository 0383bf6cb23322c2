import KerberosHttp.Soap.Envelope
import KerberosHttp.Proofs.Xml.Content

/-!
# What one event does to the pass

`Scan.step` reads one event.  This file says once what it can do, so that no later
proof has to open it: `Enters` has a constructor for each of the four places where an
element may begin, and `Steps` one for each kind of event.

From these follow the facts that every later file uses:

* `Steps.path_eq`, `path_of_spells`: the path is that of the open elements, and a
  whole content leaves it as it was;
* `run_element_eq_ok_iff`: an element is read as its name, its content one level down,
  and what follows it;
* `holds_of_run`: what every event keeps, a run keeps;
* `settled_of_run`: once an operation is known, neither it nor the presence of the
  fault changes;
* `exists_run_of_spells`: inside an element only character data and document types can
  end the pass.
-/

namespace KerberosHttp.Soap

/-- Whether an element has a name in the name space of a version. -/
def IsNamed (version : Version) (label : String) (name : Xml.ElementName) : Prop :=
  name.localName = label ∧ name.space = some version.uriBytes

instance (version : Version) (label : String) (name : Xml.ElementName) :
    Decidable (IsNamed version label name) :=
  inferInstanceAs (Decidable (_ ∧ _))

/-- The name with a label in the name space of a version. -/
def Version.named (version : Version) (label : String) : Xml.ElementName :=
  ⟨label, some version.uriBytes⟩

/-- The path after an event. -/
def Path.after (version : Version) (path : Path) : Xml.Event → Path
  | .start name => Scan.ancestor version name :: path
  | .close => path.tail
  | _ => path

@[simp] theorem Path.after_start (version : Version) (path : Path) (name : Xml.ElementName) :
    path.after version (.start name) = Scan.ancestor version name :: path := rfl

@[simp] theorem Path.after_empty (version : Version) (path : Path) (name : Xml.ElementName) :
    path.after version (.empty name) = path := rfl

@[simp] theorem Path.after_close (version : Version) (path : Path) :
    path.after version .close = path.tail := rfl

@[simp] theorem Path.after_leaf (version : Version) (path : Path) (leaf : Xml.Leaf) :
    path.after version leaf.event = path := by
  cases leaf <;> rfl

namespace Scan

variable {version : Version}

theorem isBody_ancestor {name : Xml.ElementName} :
    (ancestor version name).isBody = true ↔ IsNamed version "Body" name := by
  simp only [Ancestor.isBody, Bool.and_eq_true, decide_eq_true_eq]
  simp [ancestor, IsNamed]

/-! ## Parts of a step -/

theorem push_eq (scan : Scan) (name : Xml.ElementName) :
    scan.push version name =
      { scan with
        path := ancestor version name :: scan.path
        reasons := scan.reasons +
          if scan.fault.isSome ∧
              Path.field? version (ancestor version name :: scan.path) = some .reason
            then 1 else 0 } := by
  cases hfault : scan.fault with
  | none => simp [push, field?, hfault]
  | some fault =>
      by_cases hfield : Path.field? version (ancestor version name :: scan.path) = some .reason
      · simp [push, field?, hfault, hfield]
      · simp [push, field?, hfault, hfield]

@[simp] theorem push_path (scan : Scan) (name : Xml.ElementName) :
    (scan.push version name).path = ancestor version name :: scan.path := by
  rw [push_eq]

@[simp] theorem push_operation (scan : Scan) (name : Xml.ElementName) :
    (scan.push version name).operation = scan.operation := by
  rw [push_eq]

/-- A fault with more text in one of its fields, while `reasons` reasons have begun. -/
def extend (reasons : Nat) (field : FaultField) (text : String) (fault : Fault) : Fault :=
  match field with
  | .code => { fault with code := fault.code ++ text }
  | .reason => if reasons ≤ 1 then { fault with reason := fault.reason ++ text } else fault

theorem append_eq (scan : Scan) (field : FaultField) (text : String) :
    scan.append field text =
      { scan with fault := scan.fault.map (extend scan.reasons field text) } := by
  obtain ⟨path, sawEnvelope, sawBody, operation, fault, reasons⟩ := scan
  cases fault with
  | none => rfl
  | some fault =>
      cases field with
      | code => rfl
      | reason => by_cases hfirst : reasons ≤ 1 <;> simp [append, extend, hfirst]

theorem append_empty (scan : Scan) (field : FaultField) : scan.append field "" = scan := by
  rw [append_eq]
  obtain ⟨path, sawEnvelope, sawBody, operation, fault, reasons⟩ := scan
  cases fault with
  | none => rfl
  | some fault => cases field <;> simp [extend]

/-! ## Entering an element -/

/-- A place where an element that begins tells nothing: below the root, and not the
place of the first element in a body. -/
structure Indifferent (scan : Scan) : Prop where
  below : 2 ≤ scan.path.length
  told : ∀ body root, scan.path = [body, root] → body.isBody = true → scan.operation ≠ none

/-- What the name of an element does, by the place where the element begins. -/
inductive Enters (version : Version) (scan : Scan) (name : Xml.ElementName) : Scan → Prop
  | root (hpath : scan.path = []) (hfirst : scan.sawEnvelope = false)
      (hname : IsNamed version "Envelope" name) :
      Enters version scan name { scan with sawEnvelope := true }
  | child {root : Ancestor} (hpath : scan.path = [root]) :
      Enters version scan name
        { scan with sawBody := scan.sawBody || decide (IsNamed version "Body" name) }
  | operation {body root : Ancestor} (hpath : scan.path = [body, root])
      (hbody : body.isBody = true) (hnone : scan.operation = none) :
      Enters version scan name
        { scan with
          operation := some name.localName
          fault := if IsNamed version "Fault" name then some ⟨"", ""⟩ else scan.fault }
  | indifferent (hplace : scan.Indifferent) : Enters version scan name scan

theorem enterRoot_eq_ok_iff {scan next : Scan} {name : Xml.ElementName} :
    scan.enterRoot version name = .ok next ↔
      scan.sawEnvelope = false ∧ IsNamed version "Envelope" name ∧
        next = { scan with sawEnvelope := true } := by
  unfold enterRoot IsNamed
  cases hspace : name.space with
  | none => split <;> (try split) <;> simp
  | some uri =>
      by_cases hsaw : scan.sawEnvelope = true
      · simp [hsaw]
      · by_cases hlocal : name.localName = "Envelope"
        · by_cases huri : uri = version.uriBytes <;> simp [hsaw, hlocal, huri, eq_comm]
        · simp [hsaw, hlocal]

theorem enter_child {scan : Scan} {name : Xml.ElementName} {root : Ancestor}
    (hpath : scan.path = [root]) :
    scan.enter version name =
      .ok { scan with sawBody := scan.sawBody || decide (IsNamed version "Body" name) } := by
  by_cases hlocal : name.localName = "Body" <;>
    by_cases hspace : name.space = some version.uriBytes <;>
    simp [enter, hpath, IsNamed, hlocal, hspace]

theorem enter_operation {scan : Scan} {name : Xml.ElementName} {body root : Ancestor}
    (hpath : scan.path = [body, root]) (hbody : body.isBody = true)
    (hnone : scan.operation = none) :
    scan.enter version name =
      .ok { scan with
        operation := some name.localName
        fault := if IsNamed version "Fault" name then some ⟨"", ""⟩ else scan.fault } := by
  simp only [enter, hpath, hbody, hnone, and_self, if_true]
  rfl

theorem enter_indifferent {scan : Scan} {name : Xml.ElementName} (hplace : scan.Indifferent) :
    scan.enter version name = .ok scan := by
  obtain ⟨hbelow, htold⟩ := hplace
  unfold enter
  match hpath : scan.path with
  | [] => simp [hpath] at hbelow
  | [_] => simp [hpath] at hbelow
  | [body, root] =>
      have hnot : ¬ (body.isBody = true ∧ scan.operation = none) := fun ⟨hbody, hnone⟩ =>
        htold body root hpath hbody hnone
      simp only [if_neg hnot]
  | _ :: _ :: _ :: _ => rfl

/-- An element begins at one of four places. -/
theorem place_cases (scan : Scan) :
    scan.path = [] ∨ (∃ root, scan.path = [root]) ∨
      (∃ body root, scan.path = [body, root] ∧ body.isBody = true ∧ scan.operation = none) ∨
      scan.Indifferent := by
  match hpath : scan.path with
  | [] => exact .inl rfl
  | [root] => exact .inr (.inl ⟨root, rfl⟩)
  | [body, root] =>
      by_cases htold : body.isBody = true ∧ scan.operation = none
      · exact .inr (.inr (.inl ⟨body, root, rfl, htold⟩))
      · refine .inr (.inr (.inr ⟨by simp [hpath], fun _ _ hsame hbody hnone => htold ⟨?_, hnone⟩⟩))
        rw [hpath] at hsame
        cases hsame
        exact hbody
  | _ :: _ :: _ :: _ => exact .inr (.inr (.inr ⟨by simp [hpath], by simp [hpath]⟩))

theorem enter_eq_ok_iff {scan next : Scan} {name : Xml.ElementName} :
    scan.enter version name = .ok next ↔ Enters version scan name next := by
  constructor
  · intro henter
    rcases scan.place_cases with hpath | ⟨root, hpath⟩ | ⟨body, root, hpath, hbody, hnone⟩ | hplace
    · have hroot : scan.enterRoot version name = .ok next := by simpa [enter, hpath] using henter
      obtain ⟨hfirst, hname, rfl⟩ := enterRoot_eq_ok_iff.mp hroot
      exact .root hpath hfirst hname
    · rw [enter_child hpath] at henter
      cases henter
      exact .child hpath
    · rw [enter_operation hpath hbody hnone] at henter
      cases henter
      exact .operation hpath hbody hnone
    · rw [enter_indifferent hplace] at henter
      cases henter
      exact .indifferent hplace
  · intro henters
    cases henters with
    | root hpath hfirst hname =>
        have hroot := enterRoot_eq_ok_iff.mpr ⟨hfirst, hname, rfl⟩
        simpa [enter, hpath] using hroot
    | child hpath => exact enter_child hpath
    | operation hpath hbody hnone => exact enter_operation hpath hbody hnone
    | indifferent hplace => exact enter_indifferent hplace

theorem Enters.path_eq {scan next : Scan} {name : Xml.ElementName}
    (henters : Enters version scan name next) : next.path = scan.path := by
  cases henters <;> rfl

theorem Enters.reasons_eq {scan next : Scan} {name : Xml.ElementName}
    (henters : Enters version scan name next) : next.reasons = scan.reasons := by
  cases henters <;> rfl

/-- Once an operation is known, the name of an element changes neither it nor the
fault. -/
theorem Enters.settled {scan next : Scan} {name : Xml.ElementName}
    (henters : Enters version scan name next) (hsome : scan.operation ≠ none) :
    next.operation = scan.operation ∧ next.fault = scan.fault := by
  cases henters with
  | operation _ _ hnone => exact absurd hnone hsome
  | _ => exact ⟨rfl, rfl⟩

/-- The root is an envelope, and the only one. -/
theorem Enters.of_root {scan next : Scan} {name : Xml.ElementName}
    (henters : Enters version scan name next) (hpath : scan.path = []) :
    scan.sawEnvelope = false ∧ IsNamed version "Envelope" name ∧
      next = { scan with sawEnvelope := true } := by
  have henter := enter_eq_ok_iff.mpr henters
  simp only [enter, hpath] at henter
  simpa [← hpath] using enterRoot_eq_ok_iff.mp henter

/-- Below the root every element may begin. -/
theorem exists_enters (version : Version) {scan : Scan} (hpath : scan.path ≠ [])
    (name : Xml.ElementName) : ∃ next, Enters version scan name next := by
  rcases scan.place_cases with hroot | ⟨root, hchild⟩ | ⟨body, root, hbody, hfirst⟩ | hplace
  · exact absurd hroot hpath
  · exact ⟨_, .child hchild⟩
  · exact ⟨_, .operation hbody hfirst.1 hfirst.2⟩
  · exact ⟨_, .indifferent hplace⟩

/-! ## Reading an event -/

/-- What an event does to a pass that goes on. -/
inductive Steps (version : Version) (scan : Scan) : Xml.Event → Scan → Prop
  | start {name : Xml.ElementName} {entered : Scan} (henters : Enters version scan name entered) :
      Steps version scan (.start name) (entered.push version name)
  | empty {name : Xml.ElementName} {next : Scan} (henters : Enters version scan name next) :
      Steps version scan (.empty name) next
  | close : Steps version scan .close { scan with path := scan.path.tail }
  | idle {leaf : Xml.Leaf} {event : Xml.Event} (hevent : event = leaf.event)
      (hleaf : leaf ≠ .doctype) (hfield : scan.field? version = none) :
      Steps version scan event scan
  | text {leaf : Xml.Leaf} {event : Xml.Event} {field : FaultField} {characters : String}
      (hevent : event = leaf.event) (hleaf : leaf ≠ .doctype)
      (hfield : scan.field? version = some field)
      (hcharacters : event.characters? = some characters) :
      Steps version scan event (scan.append field characters)

theorem step_leaf_eq_ok_iff {scan next : Scan} {leaf : Xml.Leaf} :
    scan.step version leaf.event = .ok next ↔
      leaf ≠ .doctype ∧
        match scan.field? version with
        | none => next = scan
        | some field => ∃ characters, leaf.event.characters? = some characters ∧
            next = scan.append field characters := by
  cases leaf with
  | text content =>
      cases hfield : scan.field? version with
      | none => simp [Xml.Leaf.event, step, hfield, eq_comm]
      | some field =>
          cases hdecode : Xml.unescape content <;>
            simp [Xml.Leaf.event, Xml.Event.characters?, step, hfield, hdecode, Except.toOption,
              eq_comm]
  | cdata content =>
      cases hfield : scan.field? version with
      | none => simp [Xml.Leaf.event, step, hfield, eq_comm]
      | some field =>
          cases hdecode : Utf8.decode content <;>
            simp [Xml.Leaf.event, Xml.Event.characters?, step, hfield, hdecode, Except.toOption,
              eq_comm]
  | doctype => simp [Xml.Leaf.event, step]
  | other =>
      cases hfield : scan.field? version <;>
        simp [Xml.Leaf.event, Xml.Event.characters?, step, append_empty, eq_comm]

theorem steps_of_step {scan next : Scan} {event : Xml.Event}
    (hstep : scan.step version event = .ok next) : Steps version scan event next := by
  cases event using Xml.Event.byKind with
  | start name =>
      simp only [step] at hstep
      cases henter : scan.enter version name with
      | error cause => simp [henter, bind, Except.bind] at hstep
      | ok entered =>
          simp only [henter, bind, Except.bind, pure, Except.pure, Except.ok.injEq] at hstep
          subst hstep
          exact .start (enter_eq_ok_iff.mp henter)
  | empty name => exact .empty (enter_eq_ok_iff.mp hstep)
  | close =>
      cases hstep
      exact .close
  | leaf leaf =>
      obtain ⟨hdoctype, hnext⟩ := step_leaf_eq_ok_iff.mp hstep
      split at hnext
      · next hfield =>
          subst hnext
          exact .idle rfl hdoctype hfield
      · next field hfield =>
          obtain ⟨characters, hcharacters, rfl⟩ := hnext
          exact .text rfl hdoctype hfield hcharacters

theorem Steps.step_eq {scan next : Scan} {event : Xml.Event}
    (hsteps : Steps version scan event next) : scan.step version event = .ok next := by
  cases hsteps with
  | start henters => simp [step, enter_eq_ok_iff.mpr henters, bind, Except.bind, pure, Except.pure]
  | empty henters => exact enter_eq_ok_iff.mpr henters
  | close => rfl
  | idle hevent hleaf hfield =>
      rw [hevent]
      exact step_leaf_eq_ok_iff.mpr ⟨hleaf, by simp [hfield]⟩
  | text hevent hleaf hfield hcharacters =>
      subst hevent
      exact step_leaf_eq_ok_iff.mpr ⟨hleaf, by simp [hfield, hcharacters]⟩

theorem step_eq_ok_iff {scan next : Scan} {event : Xml.Event} :
    scan.step version event = .ok next ↔ Steps version scan event next :=
  ⟨steps_of_step, Steps.step_eq⟩

theorem steps_start_iff {scan next : Scan} {name : Xml.ElementName} :
    Steps version scan (.start name) next ↔
      ∃ entered, Enters version scan name entered ∧ next = entered.push version name := by
  constructor
  · intro hsteps
    cases hsteps with
    | start henters => exact ⟨_, henters, rfl⟩
    | @idle leaf _ hevent => cases leaf <;> cases hevent
    | @text leaf _ _ _ hevent => cases leaf <;> cases hevent
  · rintro ⟨entered, henters, rfl⟩
    exact .start henters

theorem steps_empty_iff {scan next : Scan} {name : Xml.ElementName} :
    Steps version scan (.empty name) next ↔ Enters version scan name next := by
  rw [← step_eq_ok_iff, ← enter_eq_ok_iff, step]

theorem steps_close_iff {scan next : Scan} :
    Steps version scan .close next ↔ next = { scan with path := scan.path.tail } := by
  rw [← step_eq_ok_iff, step, Except.ok.injEq, eq_comm]

/-- A leaf changes nothing but the text of the fault. -/
theorem Steps.of_leaf {scan next : Scan} {leaf : Xml.Leaf}
    (hsteps : Steps version scan leaf.event next) :
    ∃ change : Fault → Fault, next = { scan with fault := scan.fault.map change } := by
  obtain ⟨-, hnext⟩ := step_leaf_eq_ok_iff.mp hsteps.step_eq
  split at hnext
  · exact ⟨id, by rw [hnext, Option.map_id, id]⟩
  · obtain ⟨characters, -, rfl⟩ := hnext
    exact ⟨_, append_eq ..⟩

/-- The path is that of the open elements. -/
theorem Steps.path_eq {scan next : Scan} {event : Xml.Event}
    (hsteps : Steps version scan event next) : next.path = scan.path.after version event := by
  cases hsteps with
  | start henters => rw [push_path, henters.path_eq, Path.after_start]
  | empty henters => exact henters.path_eq
  | close => rfl
  | idle hevent => rw [hevent, Path.after_leaf]
  | text hevent => rw [append_eq, hevent, Path.after_leaf]

/-! ## Reading events in order -/

theorem run_cons_eq_ok_iff {scan final : Scan} {event : Xml.Event} {rest : List Xml.Event} :
    scan.run version (event :: rest) = .ok final ↔
      ∃ next, Steps version scan event next ∧ next.run version rest = .ok final := by
  simp only [run, ← step_eq_ok_iff]
  cases hstep : scan.step version event <;> simp

theorem run_append (scan : Scan) (first second : List Xml.Event) :
    scan.run version (first ++ second) =
      (scan.run version first).bind fun middle => middle.run version second := by
  induction first generalizing scan with
  | nil => rfl
  | cons event rest ih =>
      simp only [List.cons_append, run]
      cases hstep : scan.step version event with
      | ok next => exact ih next
      | error error => rfl

theorem run_append_eq_ok_iff {scan final : Scan} {first second : List Xml.Event} :
    scan.run version (first ++ second) = .ok final ↔
      ∃ middle, scan.run version first = .ok middle ∧ middle.run version second = .ok final := by
  rw [run_append]
  cases hfirst : scan.run version first <;> simp [Except.bind]

theorem run_singleton (scan : Scan) (event : Xml.Event) :
    scan.run version [event] = scan.step version event := by
  cases hstep : scan.step version event <;> simp [run, hstep]

theorem run_concat_eq_ok_iff {scan final : Scan} {before : List Xml.Event} {event : Xml.Event} :
    scan.run version (before ++ [event]) = .ok final ↔
      ∃ middle, scan.run version before = .ok middle ∧ Steps version middle event final := by
  simp only [run_append_eq_ok_iff, run_singleton, step_eq_ok_iff]

/-- What every event keeps, a run keeps. -/
theorem holds_of_run {motive : Scan → Prop}
    (hkept : ∀ {scan next : Scan} {event : Xml.Event},
      Steps version scan event next → motive scan → motive next)
    {scan final : Scan} {events : List Xml.Event} (hrun : scan.run version events = .ok final)
    (hstart : motive scan) : motive final := by
  induction events generalizing scan with
  | nil =>
      cases hrun
      exact hstart
  | cons event rest ih =>
      obtain ⟨next, hstep, hrest⟩ := run_cons_eq_ok_iff.mp hrun
      exact ih hrest (hkept hstep hstart)

/-- A document with a document type is refused. -/
theorem doctype_not_mem_of_run {scan final : Scan} {events : List Xml.Event}
    (hrun : scan.run version events = .ok final) : Xml.Event.doctype ∉ events := by
  induction events generalizing scan with
  | nil => exact List.not_mem_nil
  | cons event rest ih =>
      obtain ⟨next, hstep, hrest⟩ := run_cons_eq_ok_iff.mp hrun
      rw [List.mem_cons, not_or]
      refine ⟨?_, ih hrest⟩
      rintro rfl
      exact absurd hstep.step_eq (by simp [step])

/-- The path is as long as elements are open. -/
theorem length_path_of_run {scan final : Scan} {events : List Xml.Event} {depth : Nat}
    (hrun : scan.run version events = .ok final)
    (hopen : Xml.openAfter? scan.path.length events = some depth) : final.path.length = depth := by
  induction events generalizing scan with
  | nil =>
      cases hrun
      simpa [Xml.openAfter?] using hopen
  | cons event rest ih =>
      obtain ⟨next, hstep, hrest⟩ := run_cons_eq_ok_iff.mp hrun
      refine ih hrest ?_
      rw [hstep.path_eq]
      cases event with
      | close =>
          cases hpath : scan.path with
          | nil => simp [hpath, Xml.openAfter?] at hopen
          | cons innermost outer => simpa [hpath, Xml.openAfter?, Path.after] using hopen
      | _ => simpa [Xml.openAfter?, Path.after] using hopen

/-- Once an operation is known, an event changes neither it nor the presence of the
fault. -/
theorem Steps.settled {scan next : Scan} {event : Xml.Event}
    (hsteps : Steps version scan event next) (hsome : scan.operation ≠ none) :
    next.operation = scan.operation ∧ next.fault.isSome = scan.fault.isSome := by
  cases hsteps with
  | start henters =>
      obtain ⟨hoperation, hfault⟩ := henters.settled hsome
      rw [push_eq]
      exact ⟨hoperation, by rw [hfault]⟩
  | empty henters =>
      obtain ⟨hoperation, hfault⟩ := henters.settled hsome
      exact ⟨hoperation, by rw [hfault]⟩
  | close => exact ⟨rfl, rfl⟩
  | idle => exact ⟨rfl, rfl⟩
  | text => simp [append_eq]

/-- An operation that is not known after an event was not known before it. -/
theorem Steps.untold {scan next : Scan} {event : Xml.Event}
    (hsteps : Steps version scan event next) (hnone : next.operation = none) :
    scan.operation = none := by
  refine Decidable.byContradiction fun hsome => ?_
  exact hsome ((hsteps.settled hsome).1.symm.trans hnone)

theorem settled_of_run {scan final : Scan} {events : List Xml.Event}
    (hrun : scan.run version events = .ok final) (hsome : scan.operation ≠ none) :
    final.operation = scan.operation ∧ final.fault.isSome = scan.fault.isSome := by
  refine holds_of_run (motive := fun later => later.operation = scan.operation ∧
    later.fault.isSome = scan.fault.isSome) ?_ hrun ⟨rfl, rfl⟩
  rintro middle next event hsteps ⟨hoperation, hfault⟩
  obtain ⟨hoperation', hfault'⟩ := hsteps.settled (by rwa [hoperation])
  exact ⟨hoperation'.trans hoperation, hfault'.trans hfault⟩

/-! ## Reading a whole content -/

/-- A whole content leaves the path as it was. -/
theorem path_of_spells {content : Xml.Content} {events : List Xml.Event}
    (hspells : content.Spells events) {scan final : Scan}
    (hrun : scan.run version events = .ok final) : final.path = scan.path := by
  induction hspells generalizing scan final with
  | nil =>
      cases hrun
      rfl
  | empty _ ih =>
      obtain ⟨next, hstep, hrest⟩ := run_cons_eq_ok_iff.mp hrun
      rw [ih hrest, hstep.path_eq, Path.after_empty]
  | element _ _ ihinside ihrest =>
      obtain ⟨began, hstart, hrun⟩ := run_cons_eq_ok_iff.mp hrun
      obtain ⟨ended, hinner, hrun⟩ := run_append_eq_ok_iff.mp hrun
      obtain ⟨next, hclose, hrest⟩ := run_cons_eq_ok_iff.mp hrun
      rw [ihrest hrest, hclose.path_eq, Path.after_close, ihinside hinner, hstart.path_eq,
        Path.after_start, List.tail_cons]
  | leaf _ ih =>
      obtain ⟨next, hstep, hrest⟩ := run_cons_eq_ok_iff.mp hrun
      rw [ih hrest, hstep.path_eq, Path.after_leaf]

/-- An element with a content: its name, then its content one level down, then what
follows it. -/
theorem run_element_eq_ok_iff {inside : Xml.Content} {inner after : List Xml.Event}
    (hinside : inside.Spells inner) {scan final : Scan} {name : Xml.ElementName} :
    scan.run version (.start name :: (inner ++ .close :: after)) = .ok final ↔
      ∃ entered ended, Enters version scan name entered ∧
        (entered.push version name).run version inner = .ok ended ∧
        ({ ended with path := scan.path } : Scan).run version after = .ok final := by
  have hpath : ∀ {entered ended : Scan}, Enters version scan name entered →
      (entered.push version name).run version inner = .ok ended →
      ended.path.tail = scan.path := by
    intro entered ended henters hinner
    rw [path_of_spells hinside hinner, push_path, List.tail_cons, henters.path_eq]
  constructor
  · intro hrun
    obtain ⟨began, hstart, hrun⟩ := run_cons_eq_ok_iff.mp hrun
    obtain ⟨entered, henters, rfl⟩ := steps_start_iff.mp hstart
    obtain ⟨ended, hinner, hrun⟩ := run_append_eq_ok_iff.mp hrun
    obtain ⟨next, hclose, hafter⟩ := run_cons_eq_ok_iff.mp hrun
    rw [steps_close_iff.mp hclose, hpath henters hinner] at hafter
    exact ⟨entered, ended, henters, hinner, hafter⟩
  · rintro ⟨entered, ended, henters, hinner, hafter⟩
    refine run_cons_eq_ok_iff.mpr ⟨_, .start henters, run_append_eq_ok_iff.mpr ⟨ended, hinner, ?_⟩⟩
    exact run_cons_eq_ok_iff.mpr ⟨_, .close, (hpath henters hinner).symm ▸ hafter⟩

/-- Where a leaf can be decoded and declares no document type, the pass goes on. -/
theorem exists_steps_leaf (version : Version) (scan : Scan) {leaf : Xml.Leaf}
    (hleaf : leaf ≠ .doctype) (hdecodes : leaf.event.characters? ≠ none) :
    ∃ next, Steps version scan leaf.event next := by
  obtain ⟨characters, hcharacters⟩ := Option.ne_none_iff_exists'.mp hdecodes
  cases hfield : scan.field? version with
  | none => exact ⟨scan, .idle rfl hleaf hfield⟩
  | some field => exact ⟨_, .text rfl hleaf hfield hcharacters⟩

/-- Inside an element only character data and document types can end the pass. -/
theorem exists_run_of_spells {content : Xml.Content} {events : List Xml.Event}
    (hspells : content.Spells events) (hdoctype : Xml.Event.doctype ∉ events)
    (hdecodes : Xml.Decodes events) {scan : Scan} (hpath : scan.path ≠ []) :
    ∃ final, scan.run version events = .ok final := by
  induction hspells generalizing scan with
  | nil => exact ⟨scan, rfl⟩
  | @empty name rest after _ ih =>
      obtain ⟨next, henters⟩ := exists_enters version hpath name
      have hnext : next.path ≠ [] := henters.path_eq.symm ▸ hpath
      obtain ⟨final, hrest⟩ := ih (fun hmem => hdoctype (List.mem_cons_of_mem _ hmem))
        (List.forall_mem_cons.mp hdecodes).2 hnext
      exact ⟨final, run_cons_eq_ok_iff.mpr ⟨next, .empty henters, hrest⟩⟩
  | @element name inside rest inner after hinside _ ihinside ihrest =>
      simp only [List.mem_cons, List.mem_append, reduceCtorEq, false_or, not_or] at hdoctype
      obtain ⟨hin, hafter⟩ := List.forall_mem_append.mp (List.forall_mem_cons.mp hdecodes).2
      obtain ⟨entered, henters⟩ := exists_enters version hpath name
      have hpushed : (entered.push version name).path ≠ [] := by simp
      obtain ⟨ended, hinner⟩ := ihinside hdoctype.1 hin hpushed
      have hback : ({ ended with path := scan.path } : Scan).path ≠ [] := hpath
      obtain ⟨final, hrest⟩ := ihrest hdoctype.2 (List.forall_mem_cons.mp hafter).2 hback
      exact ⟨final, (run_element_eq_ok_iff hinside).mpr ⟨entered, ended, henters, hinner, hrest⟩⟩
  | @leaf leaf rest after _ ih =>
      rw [List.mem_cons, not_or] at hdoctype
      obtain ⟨hleaf, hafter⟩ := List.forall_mem_cons.mp hdecodes
      obtain ⟨next, hstep⟩ := exists_steps_leaf version scan
        (fun hsame => hdoctype.1 (by rw [hsame, Xml.Leaf.event])) hleaf
      have hnext : next.path ≠ [] := by rwa [hstep.path_eq, Path.after_leaf]
      obtain ⟨final, hrest⟩ := ih hdoctype.2 hafter hnext
      exact ⟨final, run_cons_eq_ok_iff.mpr ⟨next, hstep, hrest⟩⟩

end Scan

end KerberosHttp.Soap
