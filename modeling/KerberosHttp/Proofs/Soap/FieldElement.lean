import KerberosHttp.Proofs.Soap.EmptyTags

/-!
# An element at a field

An element at a field of a fault may hold anything: character data in pieces, with other
elements, comments and instructions between them.  This file says what a pass makes of it
all.

Further in than a field nothing counts (`run_of_lacks`), so the pass adds to the field
what stands directly in the element, in order, and is otherwise where it was
(`run_of_field?`).  With its two tags the element counts as a reason if it is one, and that
is all (`run_fieldElement_eq_ok_iff`).
-/

namespace KerberosHttp

namespace Xml

/-- The leaves that stand directly in a content, in order. -/
def Content.leaves : Content → List Leaf
  | nil => []
  | element _ _ rest => rest.leaves
  | leaf first rest => first :: rest.leaves

/-- The text of leaves, one after another.  What cannot be decoded adds nothing. -/
def textOf (leaves : List Leaf) : String :=
  String.join (leaves.map fun leaf => leaf.event.characters?.getD "")

/-- The text that stands directly in a content. -/
def Content.text (content : Content) : String := textOf content.leaves

/-- The character data that stands directly in a content can be decoded. -/
def Content.Readable (content : Content) : Prop :=
  ∀ leaf ∈ content.leaves, leaf.event.characters? ≠ none

instance (content : Content) : Decidable content.Readable :=
  inferInstanceAs (Decidable (∀ leaf ∈ content.leaves, leaf.event.characters? ≠ none))

theorem textOf_append (first second : List Leaf) :
    textOf (first ++ second) = textOf first ++ textOf second := by
  simp [textOf]

theorem Content.text_nil : (nil : Content).text = "" := rfl

theorem Content.text_element (name : ElementName) (inside rest : Content) :
    (element name inside rest).text = rest.text := rfl

theorem Content.text_leaf (first : Leaf) (rest : Content) :
    (leaf first rest).text = first.event.characters?.getD "" ++ rest.text := by
  simp [text, textOf, leaves]

theorem Content.readable_leaf_iff {first : Leaf} {rest : Content} :
    (leaf first rest).Readable ↔ first.event.characters? ≠ none ∧ rest.Readable :=
  List.forall_mem_cons

end Xml

namespace Soap

variable {version : Version} {field : FaultField}

/-! ## Where the fields are -/

theorem leadsTo_iff {path : Path} {trail : List String} :
    path.leadsTo trail = true ↔
      ∃ inner body root, path = inner ++ [body, root] ∧ body.isBody = true ∧
        inner.map (·.name) = trail := by
  unfold Path.leadsTo
  constructor
  · intro hleads
    split at hleads
    · next body root hdrop =>
        rw [Bool.and_eq_true, beq_iff_eq] at hleads
        refine ⟨path.take trail.length, body, root, ?_, hleads⟩
        rw [← hdrop, List.take_append_drop]
    · cases hleads
  · rintro ⟨inner, body, root, rfl, hbody, rfl⟩
    simp [hbody]

theorem field?_eq_some_iff_leadsTo {path : Path} :
    path.field? version = some field ↔ path.leadsTo (field.trail version) = true := by
  unfold Path.field?
  cases field with
  | code => split <;> simp_all
  | reason =>
      by_cases hcode : path.leadsTo (FaultField.code.trail version) = true
      · -- No path leads along both trails.
        have hother : ¬ path.leadsTo (FaultField.reason.trail version) = true := by
          intro hreason
          obtain ⟨inner, body, root, rfl, -, hnames⟩ := leadsTo_iff.mp hcode
          obtain ⟨inner', body', root', hpath, -, hnames'⟩ := leadsTo_iff.mp hreason
          obtain ⟨rfl, -⟩ := List.append_inj' hpath rfl
          rw [hnames] at hnames'
          cases version <;> simp [FaultField.trail] at hnames'
        simp [hcode, hother]
      · simp [hcode]

/-- A path ends at a field if it leads through a body along the names of the trail. -/
theorem field?_eq_some_iff_trail {path : Path} :
    path.field? version = some field ↔
      ∃ inner body root, path = inner ++ [body, root] ∧ body.isBody = true ∧
        inner.map (·.name) = field.trail version :=
  field?_eq_some_iff_leadsTo.trans leadsTo_iff

/-- Neither here nor further in is an element at a field. -/
def Path.Lacks (version : Version) (field : FaultField) (path : Path) : Prop :=
  ∀ inner : Path, Path.field? version (inner ++ path) ≠ some field

namespace Path.Lacks

variable {path : Path}

theorem here (hlacks : path.Lacks version field) : path.field? version ≠ some field :=
  hlacks []

theorem cons (hlacks : path.Lacks version field) (innermost : Ancestor) :
    Path.Lacks version field (innermost :: path) := by
  intro inner
  simpa using hlacks (inner ++ [innermost])

/-- Further in than a field there is none: the fields of a version are equally deep. -/
theorem of_field? {other : FaultField} (hother : path.field? version = some other)
    (innermost : Ancestor) : Path.Lacks version field (innermost :: path) := by
  intro inner hfield
  have hlong := FieldText.length_of_field? hfield
  have hshort := FieldText.length_of_field? hother
  have hdepth : (other.trail version).length = (field.trail version).length := by
    cases version <;> cases other <;> cases field <;> rfl
  simp only [List.length_append, List.length_cons] at hlong
  omega

theorem field?_eq_none (hlacks : ∀ field, path.Lacks version field) :
    path.field? version = none :=
  Option.eq_none_iff_forall_ne_some.mpr fun field => (hlacks field).here

end Path.Lacks

namespace Scan

theorem indifferent_of_field? {scan : Scan} (hfield : scan.path.field? version = some field) :
    scan.Indifferent := by
  have hlength := FieldText.length_of_field? hfield
  have htrail := field.two_le_length_trail version
  exact indifferent_of_length (by omega)

/-! ## Further in than a field -/

theorem push_of_field?_eq_none {scan : Scan} {name : Xml.ElementName}
    (hnone : Path.field? version (ancestor version name :: scan.path) = none) :
    scan.push version name = { scan with path := ancestor version name :: scan.path } := by
  simp [push_eq, hnone]

/-- Where no field is further in, a whole content changes nothing. -/
theorem run_of_lacks {content : Xml.Content} {events : List Xml.Event}
    (hspells : content.Spells events) (hdoctype : Xml.Event.doctype ∉ events) {scan : Scan}
    (hplace : scan.Indifferent) (hlacks : ∀ field, scan.path.Lacks version field) :
    scan.run version events = .ok scan := by
  induction hspells generalizing scan with
  | nil => rfl
  | @empty name rest after _ ih =>
      rw [List.mem_cons, not_or] at hdoctype
      have hrest := ih hdoctype.2 hplace hlacks
      exact run_cons_eq_ok_iff.mpr ⟨scan, .empty (.indifferent hplace), hrest⟩
  | @element name inside rest inner after hinside _ ihinside ihrest =>
      simp only [List.mem_cons, List.mem_append, reduceCtorEq, false_or, not_or] at hdoctype
      have hdeeper : ∀ field, Path.Lacks version field (ancestor version name :: scan.path) :=
        fun field => (hlacks field).cons _
      have hinner := ihinside hdoctype.1 (hplace.push name) (by rwa [push_path])
      refine (run_element_eq_ok_iff hinside).mpr
        ⟨scan, scan.push version name, .indifferent hplace, hinner, ?_⟩
      rw [push_of_field?_eq_none (Path.Lacks.field?_eq_none hdeeper)]
      exact ihrest hdoctype.2 hplace hlacks
  | @leaf leaf rest after _ ih =>
      rw [List.mem_cons, not_or] at hdoctype
      have hleaf : leaf ≠ .doctype := fun hsame => hdoctype.1 (by rw [hsame, Xml.Leaf.event])
      have hnone : scan.field? version = none := by
        simp [field?, Path.Lacks.field?_eq_none hlacks]
      exact run_cons_eq_ok_iff.mpr ⟨scan, .idle rfl hleaf hnone, ih hdoctype.2 hplace hlacks⟩

/-! ## In an element at a field -/

@[simp] theorem append_path (scan : Scan) (text : String) :
    (scan.append field text).path = scan.path := by
  rw [append_eq]

@[simp] theorem append_operation (scan : Scan) (text : String) :
    (scan.append field text).operation = scan.operation := by
  rw [append_eq]

@[simp] theorem append_reasons (scan : Scan) (text : String) :
    (scan.append field text).reasons = scan.reasons := by
  rw [append_eq]

theorem extend_extend (reasons : Nat) (first second : String) (fault : Fault) :
    extend reasons field second (extend reasons field first fault) =
      extend reasons field (first ++ second) fault := by
  cases field with
  | code => simp [extend, String.append_assoc]
  | reason => by_cases hfirst : reasons ≤ 1 <;> simp [extend, hfirst, String.append_assoc]

theorem append_append (scan : Scan) (first second : String) :
    (scan.append field first).append field second = scan.append field (first ++ second) := by
  simp only [append_eq, Option.map_map, mk.injEq, true_and, and_true]
  congr 1
  funext fault
  exact extend_extend ..

/-- Of a reason that is not the first nothing is kept. -/
theorem append_eq_self {scan : Scan} {text : String} (hcounted : 2 ≤ scan.reasons) :
    scan.append .reason text = scan := by
  have hmany : ¬ scan.reasons ≤ 1 := by omega
  have hnothing : extend scan.reasons .reason text = id := by
    funext fault
    exact if_neg hmany
  rw [append_eq, hnothing, Option.map_id, id]

theorem field?_append (scan : Scan) (text : String) :
    (scan.append field text).field? version = scan.field? version := by
  simp [append_eq, field?]

/-- A whole content in an element at a field: what stands directly in it is decoded and
added to the field, and nothing else changes. -/
theorem run_of_field? {content : Xml.Content} {events : List Xml.Event}
    (hspells : content.Spells events) {scan final : Scan}
    (hfield : scan.field? version = some field) :
    scan.run version events = .ok final ↔
      Xml.Event.doctype ∉ events ∧ content.Readable ∧
        final = scan.append field content.text := by
  induction hspells generalizing scan with
  | nil =>
      rw [Xml.Content.text_nil, append_empty]
      simp [run, Xml.Content.Readable, Xml.Content.leaves, eq_comm]
  | @empty name rest after _ ih =>
      have hplace : scan.Indifferent := indifferent_of_field? (field?_eq_some_iff.mp hfield).2
      rw [run, (Steps.empty (.indifferent hplace)).step_eq]
      rw [ih hfield, Xml.Content.text_element]
      simp [Xml.Content.Readable, Xml.Content.leaves]
  | @element name inside rest inner after hinside _ _ ih =>
      have hhere := (field?_eq_some_iff.mp hfield).2
      have hplace : scan.Indifferent := indifferent_of_field? hhere
      have hdeeper : ∀ other, Path.Lacks version other (ancestor version name :: scan.path) :=
        fun other => .of_field? hhere _
      have hpushed : scan.push version name =
          { scan with path := ancestor version name :: scan.path } :=
        push_of_field?_eq_none (Path.Lacks.field?_eq_none hdeeper)
      rw [run_element_eq_ok_iff hinside]
      simp only [List.mem_cons, List.mem_append, reduceCtorEq, false_or, not_or]
      constructor
      · rintro ⟨entered, ended, henters, hinner, hafter⟩
        rw [hplace.enters henters] at hinner
        have hdoctype := doctype_not_mem_of_run hinner
        rw [run_of_lacks hinside hdoctype (hplace.push name) (by rwa [push_path])] at hinner
        cases hinner
        rw [hpushed] at hafter
        obtain ⟨hrest, hreadable, hfinal⟩ := (ih hfield).mp hafter
        exact ⟨⟨hdoctype, hrest⟩, hreadable, hfinal⟩
      · rintro ⟨⟨hdoctype, hrest⟩, hreadable, hfinal⟩
        have hinner := run_of_lacks hinside hdoctype (hplace.push name)
          (by rwa [push_path])
        refine ⟨scan, _, .indifferent hplace, hinner, ?_⟩
        rw [hpushed]
        exact (ih hfield).mpr ⟨hrest, hreadable, hfinal⟩
  | @leaf leaf rest after _ ih =>
      have hstep : ∀ next, Steps version scan leaf.event next ↔
          leaf ≠ .doctype ∧ leaf.event.characters? ≠ none ∧
            next = scan.append field (leaf.event.characters?.getD "") := by
        intro next
        rw [← step_eq_ok_iff, step_leaf_eq_ok_iff, hfield]
        cases hcharacters : leaf.event.characters? <;> simp
      rw [run_cons_eq_ok_iff]
      simp only [hstep, Xml.Content.text_leaf, Xml.Content.readable_leaf_iff, List.mem_cons,
        not_or]
      have hdoctype : leaf ≠ .doctype ↔ ¬ Xml.Event.doctype = leaf.event := by
        cases leaf <;> simp [Xml.Leaf.event]
      constructor
      · rintro ⟨next, ⟨hleaf, hdecodes, rfl⟩, hrest⟩
        obtain ⟨hafter, hreadable, rfl⟩ := (ih (by rwa [field?_append])).mp hrest
        exact ⟨⟨hdoctype.mp hleaf, hafter⟩, ⟨hdecodes, hreadable⟩, append_append ..⟩
      · rintro ⟨⟨hleaf, hafter⟩, ⟨hdecodes, hreadable⟩, rfl⟩
        refine ⟨_, ⟨hdoctype.mpr hleaf, hdecodes, rfl⟩, ?_⟩
        exact (ih (by rwa [field?_append])).mpr ⟨hafter, hreadable, (append_append ..).symm⟩

/-! ## With its two tags -/

/-- The pass after the start of an element at a field: a reason is counted. -/
def count (field : FaultField) (scan : Scan) : Scan :=
  match field with
  | .code => scan
  | .reason => { scan with reasons := scan.reasons + 1 }

@[simp] theorem count_path (scan : Scan) : (scan.count field).path = scan.path := by
  cases field <;> rfl

@[simp] theorem count_operation (scan : Scan) :
    (scan.count field).operation = scan.operation := by
  cases field <;> rfl

@[simp] theorem count_fault (scan : Scan) : (scan.count field).fault = scan.fault := by
  cases field <;> rfl

@[simp] theorem count_code (scan : Scan) : scan.count .code = scan := rfl

@[simp] theorem count_reason_reasons (scan : Scan) :
    (scan.count .reason).reasons = scan.reasons + 1 := rfl

theorem push_of_field? {scan : Scan} {name : Xml.ElementName} (hsome : scan.fault.isSome)
    (hfield : Path.field? version (ancestor version name :: scan.path) = some field) :
    scan.push version name =
      { scan.count field with path := ancestor version name :: scan.path } := by
  cases field <;> simp [push_eq, hsome, hfield, count]

/-- An element at a field: a reason is counted, what stands directly in it is added to the
field, and then the pass is where it was. -/
theorem run_fieldElement_eq_ok_iff {inside : Xml.Content} {inner after : List Xml.Event}
    (hinside : inside.Spells inner) {scan final : Scan} {name : Xml.ElementName}
    (hsome : scan.fault.isSome)
    (hfield : Path.field? version (ancestor version name :: scan.path) = some field) :
    scan.run version (.start name :: (inner ++ .close :: after)) = .ok final ↔
      Xml.Event.doctype ∉ inner ∧ inside.Readable ∧
        ((scan.count field).append field inside.text).run version after = .ok final := by
  have hplace : scan.Indifferent := indifferent_of_field?_cons hfield
  have hpushed := push_of_field? hsome hfield
  have hhere : (scan.push version name).field? version = some field := by
    rw [hpushed, field?_eq_some_iff]
    exact ⟨by simpa using hsome, hfield⟩
  have hback : ∀ text, { (scan.push version name).append field text with path := scan.path } =
      (scan.count field).append field text := by
    intro text
    rw [hpushed, append_eq, append_eq]
    cases field <;> rfl
  rw [run_element_eq_ok_iff hinside]
  constructor
  · rintro ⟨entered, ended, henters, hinner, hafter⟩
    rw [hplace.enters henters] at hinner
    obtain ⟨hdoctype, hreadable, rfl⟩ := (run_of_field? hinside hhere).mp hinner
    rw [hback] at hafter
    exact ⟨hdoctype, hreadable, hafter⟩
  · rintro ⟨hdoctype, hreadable, hafter⟩
    refine ⟨scan, _, .indifferent hplace,
      (run_of_field? hinside hhere).mpr ⟨hdoctype, hreadable, rfl⟩, ?_⟩
    rwa [hback]

end Scan

/-! ## Told by the events -/

/-- The names from a body down to the elements at a field. -/
def FaultField.place : Version → FaultField → List String
  | .v1_1, .code => ["Fault", "faultcode"]
  | .v1_1, .reason => ["Fault", "faultstring"]
  | .v1_2, .code => ["Fault", "Code", "Value"]
  | .v1_2, .reason => ["Fault", "Reason", "Text"]

/-- Whether a path leads from the root through a body down along some names. -/
def Path.reaches (path : Path) (names : List String) : Bool :=
  match path.reverse with
  | _ :: body :: inner => body.isBody && inner.map (·.name) == names
  | _ => false

/-- An element of this name that begins after some events stands at a field of the fault. -/
def IsField (version : Version) (field : FaultField) (before : List Xml.Event)
    (name : Xml.ElementName) : Prop :=
  CarriesFault version before ∧
    Path.reaches (Scan.ancestor version name :: Path.ofEvents version before)
      (field.place version) = true

instance (version : Version) (field : FaultField) (before : List Xml.Event)
    (name : Xml.ElementName) : Decidable (IsField version field before name) :=
  inferInstanceAs (Decidable (_ ∧ _))

/-- No reason of the fault is written by two tags among some events. -/
def NoReason (version : Version) : List Xml.Event → Prop :=
  Each fun before event => ∀ name, event = .start name → ¬ IsField version .reason before name

theorem reaches_iff {path : Path} {names : List String} :
    path.reaches names = true ↔
      ∃ inner body root, path = inner ++ [body, root] ∧ body.isBody = true ∧
        inner.map (·.name) = names.reverse := by
  unfold Path.reaches
  constructor
  · intro hreaches
    split at hreaches
    · next root body inner hreverse =>
        rw [Bool.and_eq_true, beq_iff_eq] at hreaches
        refine ⟨inner.reverse, body, root, ?_, hreaches.1, by simp [← hreaches.2]⟩
        rw [← List.reverse_reverse path, hreverse]
        simp
    · cases hreaches
  · rintro ⟨inner, body, root, rfl, hbody, hnames⟩
    simp [hbody, hnames]

/-- Where a path ends is told from the root down as from its end up. -/
theorem reaches_place_iff {path : Path} :
    path.reaches (field.place version) = true ↔ path.field? version = some field := by
  have htrail : (field.place version).reverse = field.trail version := by
    cases version <;> cases field <;> rfl
  rw [reaches_iff, htrail, field?_eq_some_iff_trail]

theorem isField_reason_iff {before : List Xml.Event} {name : Xml.ElementName} :
    IsField version .reason before name ↔ IsReason version before name := by
  rw [IsField, IsReason, reaches_place_iff]

namespace Scan

theorem isField_iff_of_run {before : List Xml.Event} {scan : Scan}
    (hrun : start.run version before = .ok scan) {name : Xml.ElementName} :
    IsField version field before name ↔
      scan.fault.isSome ∧
        Path.field? version (ancestor version name :: scan.path) = some field := by
  rw [IsField, carriesFault_iff_of_run hrun, path_of_run hrun, reaches_place_iff]

theorem reasons_eq_zero_iff_noReason {before : List Xml.Event} {scan : Scan}
    (hrun : start.run version before = .ok scan) :
    scan.reasons = 0 ↔ NoReason version before := by
  rw [reasons_eq_zero_iff_of_run hrun]
  simp only [NoReason, isField_reason_iff]

theorem regular_of_run {before : List Xml.Event} {scan : Scan}
    (hrun : start.run version before = .ok scan) : scan.Regular version :=
  holds_of_run Steps.regular hrun regular_start

end Scan

end Soap

end KerberosHttp
