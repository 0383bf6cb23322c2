import KerberosHttp.Proofs.Soap.FieldElement

/-!
# The code of a fault

The pass keeps all text at the place of a code.  The text of a second code, in the same
fault or in a later element that is named like one, is therefore joined to that of the first.

## Strategy

`leavesFrom` reads off the events alone which leaves stand directly in the elements at a
field.  Those at a code are what the pass has added to the code (`code_of_run`): before an
operation is known nothing is open in a body but the body (`shallow_of_run`), so there is
none that the pass could have missed, and afterwards an event adds what it has.

What the reader gives is nested (`Xml.Document.nested_read`), so an accepted document has a
tree.  In it the same leaves are found by following names from the bodies
down (`leavesFrom_eq_below`).  The path of an element off that way has no code further in.

## Main statement

* `code_joins_elements`: the code of a fault is the trimmed text of all codes together, and
  it is that of the first code in the fault exactly if all others are blank.
-/

namespace KerberosHttp

namespace Xml

/-- The leaf of an event that is no tag. -/
def Event.leaf? : Event → Option Leaf
  | text content => some (.text content)
  | cdata content => some (.cdata content)
  | doctype => some .doctype
  | other => some .other
  | _ => none

@[simp] theorem Leaf.leaf?_event (leaf : Leaf) : leaf.event.leaf? = some leaf := by
  cases leaf <;> rfl

/-- The elements that some names lead to from an element, each among the children of the
one before. -/
def Element.below : List String → Element → List Element
  | [], element => [element]
  | label :: names, element =>
    (element.content.elements.filter fun child => child.name.localName = label).flatMap
      (below names)

theorem textOf_flatMap (elements : List Element) :
    textOf (elements.flatMap fun element => element.content.leaves) =
      String.join (elements.map fun element => element.content.text) := by
  induction elements with
  | nil => rfl
  | cons element rest ih =>
      rw [List.flatMap_cons, textOf_append, ih, List.map_cons, String.join_cons, Content.text]

end Xml

namespace Soap

variable {version : Version} {field : FaultField}

/-- The leaves that stand directly in the elements at a field, from a path on, in order. -/
def leavesFrom (version : Version) (field : FaultField) : Path → List Xml.Event → List Xml.Leaf
  | _, [] => []
  | path, event :: rest =>
    (if path.reaches (field.place version) then event.leaf?.toList else []) ++
      leavesFrom version field (path.after version event) rest

theorem leavesFrom_append (path : Path) (first second : List Xml.Event) :
    leavesFrom version field path (first ++ second) =
      leavesFrom version field path first ++
        leavesFrom version field (first.foldl (Path.after version) path) second := by
  induction first generalizing path with
  | nil => rfl
  | cons event rest ih =>
      rw [List.cons_append, leavesFrom, ih, leavesFrom, List.append_assoc]
      rfl

theorem leavesFrom_singleton (path : Path) (event : Xml.Event) :
    leavesFrom version field path [event] =
      if path.field? version = some field then event.leaf?.toList else [] := by
  simp [leavesFrom, ← reaches_place_iff]

/-- All text of the elements at a field is that of their leaves. -/
theorem all_ofEvents (path : Path) (events : List Xml.Event) :
    (FieldText.ofEvents version field path events).all =
      Xml.textOf (leavesFrom version field path events) := by
  induction events generalizing path with
  | nil => rfl
  | cons event rest ih =>
      rw [FieldText.ofEvents, leavesFrom, Xml.textOf_append, ← ih]
      cases event using Xml.Event.byKind with
      | start name =>
          rw [FieldText.before_start]
          split
          · simp [FieldText.all_begin, Xml.Event.leaf?, Xml.textOf]
          · simp [Xml.Event.leaf?, Xml.textOf]
      | empty name => simp [Xml.Event.leaf?, Xml.textOf]
      | close => simp [Xml.Event.leaf?, Xml.textOf]
      | leaf leaf =>
          rw [FieldText.before_leaf]
          by_cases hfield : path.field? version = some field
          · rw [if_pos hfield, if_pos (reaches_place_iff.mpr hfield), FieldText.all_prepend]
            simp [Xml.textOf]
          · rw [if_neg hfield, if_neg (mt reaches_place_iff.mp hfield)]
            simp [Xml.textOf]

/-! ## What a pass adds to the code -/

namespace Scan

/-- Before an operation is known, nothing is open in a body but the body. -/
theorem shallow_of_run {before : List Xml.Event} {scan : Scan}
    (hrun : start.run version before = .ok scan) (hnone : scan.operation = none)
    {inner : Path} {child body root : Ancestor}
    (hpath : scan.path = inner ++ [child, body, root]) : body.isBody = false := by
  induction before using List.reverseRecOn generalizing scan inner child with
  | nil =>
      cases hrun
      simp [start] at hpath
  | append_singleton before event ih =>
      obtain ⟨middle, hbefore, hsteps⟩ := run_concat_eq_ok_iff.mp hrun
      have hmiddle : middle.operation = none := hsteps.untold hnone
      rw [hsteps.path_eq] at hpath
      cases hsteps with
      | @start name entered henters =>
          rw [push_operation] at hnone
          cases inner with
          | nil =>
              -- The child begins here, and in a body it would be the operation.
              obtain ⟨-, hplace⟩ := List.cons.inj hpath
              by_contra hbody
              rw [Bool.not_eq_false] at hbody
              have henter := enter_eq_ok_iff.mpr henters
              rw [enter_operation hplace hbody hmiddle] at henter
              cases henter
              cases hnone
          | cons innermost inner => exact ih hbefore hmiddle (List.cons.inj hpath).2
      | empty henters => exact ih hbefore hmiddle hpath
      | close =>
          cases hopen : middle.path with
          | nil => simp [hopen] at hpath
          | cons innermost outer =>
              rw [Path.after_close, hopen, List.tail_cons] at hpath
              have hinner : middle.path = (innermost :: inner) ++ [child, body, root] := by
                rw [hopen, hpath, List.cons_append]
              exact ih hbefore hmiddle hinner
      | @idle leaf _ hevent =>
          rw [hevent, Path.after_leaf] at hpath
          exact ih hbefore hmiddle hpath
      | @text leaf _ _ _ hevent =>
          rw [hevent, Path.after_leaf] at hpath
          exact ih hbefore (by rwa [append_eq] at hnone) hpath

/-- Before an operation is known, no element is open at a field. -/
theorem field?_eq_none_of_run {before : List Xml.Event} {scan : Scan}
    (hrun : start.run version before = .ok scan) (hnone : scan.operation = none) :
    scan.path.field? version = none := by
  cases hfield : scan.path.field? version with
  | none => rfl
  | some field =>
      obtain ⟨inner, body, root, hpath, hbody, hnames⟩ := field?_eq_some_iff_trail.mp hfield
      cases inner using List.reverseRecOn with
      | nil => cases version <;> cases field <;> cases hnames
      | append_singleton inner child =>
          have hshallow := shallow_of_run hrun hnone (by rw [hpath, List.append_assoc]; rfl)
          exact absurd (hbody.symm.trans hshallow) (by decide)

theorem leavesFrom_of_run {before : List Xml.Event} {scan : Scan}
    (hrun : start.run version before = .ok scan) (hnone : scan.operation = none) :
    leavesFrom version field [] before = [] := by
  induction before using List.reverseRecOn generalizing scan with
  | nil => rfl
  | append_singleton before event ih =>
      obtain ⟨middle, hbefore, hsteps⟩ := run_concat_eq_ok_iff.mp hrun
      have hmiddle : middle.operation = none := hsteps.untold hnone
      have hpath : before.foldl (Path.after version) [] = middle.path :=
        (path_of_run hbefore).symm
      rw [leavesFrom_append, ih hbefore hmiddle, hpath, leavesFrom_singleton,
        field?_eq_none_of_run hbefore hmiddle]
      simp

/-- A fault begins with the first element of a body, and then it has no text. -/
theorem Steps.fault_begins {scan next : Scan} {event : Xml.Event} {fault : Fault}
    (hsteps : Steps version scan event next) (hnone : scan.fault = none)
    (hfault : next.fault = some fault) :
    scan.operation = none ∧ scan.path.length = 2 ∧ fault = ⟨"", ""⟩ := by
  have hkept : next.fault ≠ scan.fault := by
    rw [hnone, hfault]
    exact Option.some_ne_none fault
  have hbegins : ∀ name entered, Enters version scan name entered → entered.fault = next.fault →
      scan.operation = none ∧ scan.path.length = 2 ∧ fault = ⟨"", ""⟩ := by
    intro name entered henters hentered
    cases henters with
    | operation hpath _ htold =>
        refine ⟨htold, by simp [hpath], ?_⟩
        simp only [hnone, hfault] at hentered
        split at hentered
        · exact (Option.some.inj hentered).symm
        · cases hentered
    | root => exact absurd hentered.symm hkept
    | child => exact absurd hentered.symm hkept
    | indifferent => exact absurd hentered.symm hkept
  cases hsteps with
  | start henters => exact hbegins _ _ henters (by rw [push_eq])
  | empty henters => exact hbegins _ _ henters rfl
  | close => exact absurd rfl hkept
  | idle => exact absurd rfl hkept
  | text => exact absurd (by simp [append_eq, hnone]) hkept

/-- Character data at a field is decoded. -/
theorem Steps.readable {scan next : Scan} {event : Xml.Event}
    (hsteps : Steps version scan event next) (hsome : scan.fault.isSome) :
    ∀ leaf ∈ leavesFrom version field scan.path [event], leaf.event.characters? ≠ none := by
  intro leaf hleaf
  rw [leavesFrom_singleton] at hleaf
  split at hleaf
  · next hfield =>
      have hhere : scan.field? version = some field := field?_eq_some_iff.mpr ⟨hsome, hfield⟩
      have hevent : event = leaf.event := by
        cases event <;> simp [Xml.Event.leaf?] at hleaf <;> rw [hleaf] <;> rfl
      have hstep := hsteps.step_eq
      rw [hevent, step_leaf_eq_ok_iff, hhere] at hstep
      obtain ⟨-, characters, hcharacters, -⟩ := hstep
      rw [hcharacters]
      exact Option.some_ne_none characters
  · cases hleaf

/-- The code of a fault is the text of all leaves at a code, and all of it is decoded. -/
theorem code_of_run {events : List Xml.Event} {scan : Scan} {fault : Fault}
    (hrun : start.run version events = .ok scan) (hfault : scan.fault = some fault) :
    fault.code = Xml.textOf (leavesFrom version .code [] events) ∧
      ∀ leaf ∈ leavesFrom version .code [] events, leaf.event.characters? ≠ none := by
  induction events using List.reverseRecOn generalizing scan fault with
  | nil =>
      cases hrun
      cases hfault
  | append_singleton before event ih =>
      obtain ⟨middle, hbefore, hsteps⟩ := run_concat_eq_ok_iff.mp hrun
      have hpath : before.foldl (Path.after version) [] = middle.path :=
        (path_of_run hbefore).symm
      rw [leavesFrom_append, hpath, Xml.textOf_append]
      cases hmiddle : middle.fault with
      | some earlier =>
          obtain ⟨hcode, hreadable⟩ := ih hbefore hmiddle
          have hsome : middle.fault.isSome := by rw [hmiddle]; rfl
          have hlast : middle.run version [event] = .ok scan :=
            (run_singleton middle event).trans hsteps.step_eq
          obtain ⟨hgrown, -⟩ :=
            fault_of_run hlast ((regular_of_run hbefore).told hsome) hmiddle
          rw [hfault, Option.some.injEq] at hgrown
          refine ⟨?_, List.forall_mem_append.mpr ⟨hreadable, hsteps.readable hsome⟩⟩
          rw [hgrown, hcode, all_ofEvents]
      | none =>
          -- The fault begins with this event, and nothing stands at a code before it.
          obtain ⟨hnone, hlength, hempty⟩ := hsteps.fault_begins hmiddle hfault
          rw [leavesFrom_of_run hbefore hnone, leavesFrom_singleton,
            FieldText.field?_eq_none_of_length (by omega), hempty]
          simp [Xml.textOf]

end Scan

/-! ## The codes in the tree -/

/-- The leaves that stand directly in the elements at a field, in a content at a path. -/
def leavesIn (version : Version) (field : FaultField) : Path → Xml.Content → List Xml.Leaf
  | _, .nil => []
  | path, .element name inside rest =>
    leavesIn version field (Scan.ancestor version name :: path) inside ++
      leavesIn version field path rest
  | path, .leaf leaf rest =>
    (if path.reaches (field.place version) then [leaf] else []) ++
      leavesIn version field path rest

/-- The events of a content have its leaves. -/
theorem leavesFrom_of_spells {content : Xml.Content} {events : List Xml.Event}
    (hspells : content.Spells events) (path : Path) :
    leavesFrom version field path events = leavesIn version field path content := by
  induction hspells generalizing path with
  | nil => rfl
  | empty _ ih => simp [leavesFrom, leavesIn, Xml.Event.leaf?, ih]
  | element hinside _ ihinside ihrest =>
      simp [leavesFrom, leavesIn, Xml.Event.leaf?, leavesFrom_append, after_of_spells hinside,
        ihinside, ihrest]
  | leaf _ ih => simp [leavesFrom, leavesIn, ih]

theorem leavesIn_of_lacks {path : Path} (hlacks : path.Lacks version field)
    (content : Xml.Content) : leavesIn version field path content = [] := by
  induction content generalizing path with
  | nil => rfl
  | element name inside rest ihinside ihrest =>
      rw [leavesIn, ihinside (hlacks.cons _), ihrest hlacks, List.append_nil]
  | leaf leaf rest ih =>
      rw [leavesIn, if_neg (mt reaches_place_iff.mp hlacks.here), ih hlacks, List.append_nil]

/-- In an element at a field only what stands directly in it counts. -/
theorem leavesIn_of_field? {path : Path} (hfield : path.field? version = some field)
    (content : Xml.Content) : leavesIn version field path content = content.leaves := by
  induction content with
  | nil => rfl
  | element name inside rest _ ih =>
      have hdeeper : Path.Lacks version field (Scan.ancestor version name :: path) :=
        .of_field? hfield _
      rw [leavesIn, leavesIn_of_lacks hdeeper, ih]
      rfl
  | leaf leaf rest ih =>
      rw [leavesIn, if_pos (reaches_place_iff.mpr hfield), ih]
      rfl

/-- Elsewhere only what is in its elements counts. -/
theorem leavesIn_of_field?_ne {path : Path} (hfield : path.field? version ≠ some field)
    (content : Xml.Content) :
    leavesIn version field path content = content.elements.flatMap fun child =>
      leavesIn version field (Scan.ancestor version child.name :: path) child.content := by
  induction content with
  | nil => rfl
  | element name inside rest _ ih => rw [leavesIn, ih, Xml.Content.elements, List.flatMap_cons]
  | leaf leaf rest ih =>
      rw [leavesIn, if_neg (mt reaches_place_iff.mp hfield), ih, Xml.Content.elements,
        List.nil_append]

theorem flatMap_eq_filter {α β : Type} {keeps : α → Bool} {all some : α → List β} {list : List α}
    (hkept : ∀ a ∈ list, keeps a = true → all a = some a)
    (hdropped : ∀ a ∈ list, keeps a = false → all a = []) :
    list.flatMap all = (list.filter keeps).flatMap some := by
  induction list with
  | nil => rfl
  | cons a rest ih =>
      obtain ⟨hhead, hrest⟩ := List.forall_mem_cons.mp hkept
      obtain ⟨hhead', hrest'⟩ := List.forall_mem_cons.mp hdropped
      cases hkeeps : keeps a with
      | true => simp [hkeeps, hhead hkeeps, ih hrest hrest']
      | false => simp [hkeeps, hhead' hkeeps, ih hrest hrest']

/-- Below a body, following the names leads to the leaves at a field. -/
theorem leavesIn_eq_below {names : List String} {inner : Path} {body root : Ancestor}
    (hbody : body.isBody = true)
    (hplace : (inner.map (·.name)).reverse ++ names = field.place version)
    (element : Xml.Element) :
    leavesIn version field (inner ++ [body, root]) element.content =
      (element.below names).flatMap fun reached => reached.content.leaves := by
  induction names generalizing inner element with
  | nil =>
      have hfield : Path.field? version (inner ++ [body, root]) = some field := by
        refine reaches_place_iff.mp (reaches_iff.mpr ⟨inner, body, root, rfl, hbody, ?_⟩)
        rw [← hplace, List.append_nil, List.reverse_reverse]
      rw [leavesIn_of_field? hfield, Xml.Element.below]
      simp
  | cons label names ih =>
      -- Whatever stands further in, it is reached only through a child of the right name.
      have hway : ∀ outer : Path, Path.field? version (outer ++ (inner ++ [body, root])) =
          some field → (outer.map (·.name)).reverse = label :: names := by
        intro outer hfield
        obtain ⟨inner', body', root', hpath, -, hnames⟩ :=
          reaches_iff.mp (reaches_place_iff.mpr hfield)
        rw [← List.append_assoc] at hpath
        obtain ⟨rfl, -⟩ := List.append_inj' hpath rfl
        rw [List.map_append, ← List.reverse_inj, List.reverse_append, List.reverse_reverse,
          ← hplace] at hnames
        exact List.append_cancel_left hnames
      have hhere : Path.field? version (inner ++ [body, root]) ≠ some field := by
        intro hfield
        cases hway [] hfield
      rw [leavesIn_of_field?_ne hhere, Xml.Element.below, List.flatMap_assoc]
      refine flatMap_eq_filter (fun child _ hnamed => ?_) fun child _ hother => ?_
      · have hfurther : ((Scan.ancestor version child.name :: inner).map (·.name)).reverse ++ names =
            field.place version := by
          rw [← hplace]
          simp [Scan.ancestor, of_decide_eq_true hnamed]
        exact ih hfurther child
      · refine leavesIn_of_lacks (fun outer hfield => ?_) child.content
        have hnames := hway (outer ++ [Scan.ancestor version child.name]) (by simpa using hfield)
        simp only [List.map_append, List.map_cons, List.map_nil, List.reverse_append,
          List.reverse_cons, List.reverse_nil, List.nil_append, List.cons_append,
          List.cons.injEq] at hnames
        exact of_decide_eq_false hother hnames.1

/-! ## The codes of a document -/

/-- The elements that stand directly in the bodies of an envelope, in order. -/
def bodyElements (version : Version) (inside : Xml.Content) : List Xml.Element :=
  (inside.elements.filter fun child => IsNamed version "Body" child.name).flatMap fun body =>
    body.content.elements

/-- The elements at the place of a code in an element that is named like a fault. -/
def codesOf (version : Version) (fault : Xml.Element) : List Xml.Element :=
  fault.below (FaultField.code.place version).tail

/-- The elements at the place of a code in all of some elements that are named like faults. -/
def codesAmong (version : Version) (elements : List Xml.Element) : List Xml.Element :=
  (elements.filter fun element => element.name.localName = "Fault").flatMap (codesOf version)

theorem codesAmong_cons {first : Xml.Element} (hname : first.name.localName = "Fault")
    (later : List Xml.Element) :
    codesAmong version (first :: later) = codesOf version first ++ codesAmong version later := by
  simp [codesAmong, hname]

theorem codesAmong_flatMap (elements : List Xml.Element)
    (inside : Xml.Element → List Xml.Element) :
    codesAmong version (elements.flatMap inside) =
      elements.flatMap fun element => codesAmong version (inside element) := by
  simp [codesAmong, List.filter_flatMap, List.flatMap_assoc]

theorem head?_bodyElements (inside : Xml.Content) :
    (bodyElements version inside).head?.map (·.name) = (bodyChildren version inside).head? := by
  rw [← List.head?_map, bodyElements, bodyChildren, List.map_flatMap]

/-- In a document the codes are found below the bodies. -/
theorem leavesIn_document {tree : Xml.Content} {root : Xml.Element}
    (hroot : tree.elements = [root]) :
    leavesIn version .code [] tree =
      (codesAmong version (bodyElements version root.content)).flatMap fun code =>
        code.content.leaves := by
  have htop : ∀ path : Path, path.length ≤ 3 → path.field? version ≠ some .code := by
    intro path hlength
    rw [FieldText.field?_eq_none_of_length hlength]
    exact (Option.some_ne_none _).symm
  have hfault : ∀ body : Xml.Element, body.below (FaultField.code.place version) =
      codesAmong version body.content.elements := by
    intro body
    cases version <;> rfl
  rw [leavesIn_of_field?_ne (htop [] (Nat.zero_le 3)), hroot, List.flatMap_singleton,
    leavesIn_of_field?_ne (htop [_] (by simp))]
  have hbodies : (root.content.elements.flatMap fun child =>
      leavesIn version .code [Scan.ancestor version child.name, Scan.ancestor version root.name]
        child.content) =
      (root.content.elements.filter fun child => IsNamed version "Body" child.name).flatMap
        fun body => (codesAmong version body.content.elements).flatMap fun code =>
          code.content.leaves := by
    refine flatMap_eq_filter (fun child _ hbody => ?_) fun child _ hother => ?_
    · have hthere := Scan.isBody_ancestor.mpr (of_decide_eq_true hbody)
      rw [← hfault, ← List.nil_append [Scan.ancestor version child.name, _]]
      exact leavesIn_eq_below hthere rfl child
    · refine leavesIn_of_lacks (fun outer hfield => ?_) child.content
      obtain ⟨inner, body, top, hpath, hbody, -⟩ := field?_eq_some_iff_trail.mp hfield
      obtain ⟨-, hends⟩ := List.append_inj' hpath rfl
      obtain ⟨rfl, -⟩ := List.cons.inj hends
      exact of_decide_eq_false hother (Scan.isBody_ancestor.mp hbody)
  rw [hbodies, bodyElements, codesAmong_flatMap, List.flatMap_assoc]

/-- Texts that are joined trim to the first of them exactly if all others are blank. -/
theorem trim_join_eq_iff (texts others : List String) :
    Text.trim (String.join (texts ++ others)) = Text.trim (texts.headD "") ↔
      ∀ text ∈ texts.tail ++ others, Text.Blank text := by
  have hsplit : String.join (texts ++ others) =
      texts.headD "" ++ String.join (texts.tail ++ others) := by
    cases texts with
    | nil => simp
    | cons text rest => simp
  rw [hsplit, Text.trim_append_eq_iff, Text.blank_join_iff]

/-- **A code joins the texts of all its elements.**  An envelope with a fault has a tree, and
the first element in its bodies is the fault.  The code is the trimmed text, one after
another, of all elements at the place of a code, in the fault and in every later element
that is named like one.  So it is the text of the first code in the fault, or empty if
there is none, exactly if all others are blank. -/
theorem code_joins_elements (version : Version) {events : List Xml.Event} {envelope : Envelope}
    {fault : Fault} (hnested : Xml.Nested events)
    (hread : Envelope.ofDocument version ⟨events, none⟩ = .ok envelope)
    (hfault : envelope.fault = some fault) :
    ∃ tree root first later, Xml.Content.ofEvents? events = some tree ∧
      tree.elements = [root] ∧ bodyElements version root.content = first :: later ∧
      IsNamed version "Fault" first.name ∧
      (∀ code ∈ codesOf version first ++ codesAmong version later, code.content.Readable) ∧
      fault.code = Text.trim (String.join
        ((codesOf version first ++ codesAmong version later).map (·.content.text))) ∧
      (fault.code = Text.trim (((codesOf version first).map (·.content.text)).headD "") ↔
        ∀ code ∈ (codesOf version first).tail ++ codesAmong version later,
          Text.Blank code.content.text) := by
  obtain ⟨tree, htree⟩ := Xml.Content.exists_ofEvents?
    (Envelope.openAfter?_of_ofDocument hnested hread)
  have hspells : tree.Spells events := Xml.Content.spells_of_ofEvents? htree
  obtain ⟨root, hroot, -, -, -, hpresent⟩ := Envelope.tells_of_ofDocument hread hspells
  obtain ⟨scan, hrun, hfinish⟩ := Envelope.ofDocument_eq_ok_iff.mp hread
  obtain ⟨-, -, -, rfl⟩ := Scan.finish_eq_ok_iff.mp hfinish
  obtain ⟨untrimmed, hkept, rfl⟩ := Option.map_eq_some_iff.mp hfault
  rw [hfault, ← head?_bodyElements, Option.isSome_some, eq_comm, Option.any_eq_true] at hpresent
  obtain ⟨name, hhead, hname⟩ := hpresent
  obtain ⟨first, hfirst, rfl⟩ := Option.map_eq_some_iff.mp hhead
  obtain ⟨later, helements⟩ := List.head?_eq_some_iff.mp hfirst
  have hname : IsNamed version "Fault" first.name := of_decide_eq_true hname
  obtain ⟨hcode, hreadable⟩ := Scan.code_of_run hrun hkept
  rw [leavesFrom_of_spells hspells, leavesIn_document hroot, helements,
    codesAmong_cons hname.1] at hcode hreadable
  rw [Xml.textOf_flatMap] at hcode
  refine ⟨tree, root, first, later, htree, hroot, helements, hname, ?_, ?_, ?_⟩
  · intro code hmem leaf hleaf
    exact hreadable leaf (List.mem_flatMap.mpr ⟨code, hmem, hleaf⟩)
  · rw [Scan.trimFault, hcode]
  · rw [Scan.trimFault, hcode, List.map_append, trim_join_eq_iff, ← List.map_tail,
      ← List.map_append, List.forall_mem_map]

section TwoCodes

/-- A fault with two codes, the second after another element. -/
private def twoCodes : List Xml.Event :=
  [.start (Version.named .v1_2 "Envelope"), .start (Version.named .v1_2 "Body"),
    .start (Version.named .v1_2 "Fault"), .start (Version.named .v1_2 "Code"),
    .start (Version.named .v1_2 "Value"), .text (Bytes.ofAscii " a"), .close,
    .start (Version.named .v1_2 "Subcode"), .text (Bytes.ofAscii "c"), .close,
    .start (Version.named .v1_2 "Value"), .text (Bytes.ofAscii "b "), .close,
    .close, .close, .close, .close]

theorem code_joins_elements_twoCodes :
    Xml.Nested twoCodes ∧
      Envelope.ofDocument .v1_2 ⟨twoCodes, none⟩ = .ok ⟨some "Fault", some ⟨"ab", ""⟩⟩ ∧
      ∃ tree root first, Xml.Content.ofEvents? twoCodes = some tree ∧ tree.elements = [root] ∧
        bodyElements .v1_2 root.content = [first] ∧
        (codesOf .v1_2 first).map (·.content.text) = [" a", "b "] ∧
        "ab" = Text.trim (String.join [" a", "b "]) ∧ "ab" ≠ Text.trim " a" := by
  have hnested : Xml.Nested twoCodes := by decide
  have hread : Envelope.ofDocument .v1_2 ⟨twoCodes, none⟩ =
      .ok ⟨some "Fault", some ⟨"ab", ""⟩⟩ := by decide
  refine ⟨hnested, hread, ?_⟩
  obtain ⟨tree, root, first, later, htree, hroot, helements, -, -, hcode, hfirst⟩ :=
    code_joins_elements .v1_2 hnested hread rfl
  cases htree
  cases hroot
  cases helements
  refine ⟨_, _, _, rfl, rfl, rfl, by decide, hcode, fun hsame => ?_⟩
  exact absurd (hfirst.mp hsame) (by decide)

end TwoCodes

end Soap

end KerberosHttp
