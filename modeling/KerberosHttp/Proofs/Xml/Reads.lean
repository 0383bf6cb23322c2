import KerberosHttp.Proofs.Xml.Content

/-!
# Reading tokens in parts

What tokens say depends on the elements that are open where they stand, and it may
leave others open.  `Nesting.Reads` says both, so that a document can be read in parts:
what the first tokens say, and what the others say inside the elements that the first
leave open (`Document.ofTokens_append`).

Tokens that end no element which began before them can be read anywhere: inside any
other elements they nest alike, and leave those as they were
(`Nesting.Reads.elsewhere`).  Only the name spaces may differ.  For that reason a text
can be called a fragment, `IsFragment`, whatever it is put into.
-/

namespace KerberosHttp.Xml

/-- What tokens say inside open elements, and the elements that are open after them. -/
inductive Nesting.Reads : Nesting → List Token → List Event → Nesting → Prop
  | nil {nesting : Nesting} : Reads nesting [] [] nesting
  | cons {nesting inner final : Nesting} {token : Token} {event : Event} {tokens : List Token}
      {events : List Event} (hstep : nesting.step token = .ok (inner, event))
      (hrest : Reads inner tokens events final) :
      Reads nesting (token :: tokens) (event :: events) final

namespace Nesting

theorem reads_append_iff {nesting final : Nesting} {first second : List Token}
    {all : List Event} :
    Reads nesting (first ++ second) all final ↔
      ∃ events middle later, all = events ++ later ∧ Reads nesting first events middle ∧
        Reads middle second later final := by
  induction first generalizing nesting all with
  | nil =>
      constructor
      · intro hreads
        exact ⟨[], nesting, all, rfl, .nil, hreads⟩
      · rintro ⟨events, middle, later, rfl, hfirst, hsecond⟩
        cases hfirst
        exact hsecond
  | cons token rest ih =>
      constructor
      · intro hreads
        cases hreads with
        | cons hstep hrest =>
            obtain ⟨events, middle, later, rfl, hfirst, hsecond⟩ := ih.mp hrest
            exact ⟨_, middle, later, rfl, .cons hstep hfirst, hsecond⟩
      · rintro ⟨events, middle, later, rfl, hfirst, hsecond⟩
        cases hfirst with
        | cons hstep hrest => exact .cons hstep (ih.mpr ⟨_, middle, later, rfl, hrest, hsecond⟩)

theorem Reads.append {nesting middle final : Nesting} {first second : List Token}
    {events later : List Event} (hfirst : Reads nesting first events middle)
    (hsecond : Reads middle second later final) :
    Reads nesting (first ++ second) (events ++ later) final :=
  reads_append_iff.mpr ⟨events, middle, later, rfl, hfirst, hsecond⟩

end Nesting

/-! ## Documents in parts -/

namespace Document

theorem ofTokens_append {nesting middle : Nesting} {first : List Token} {events : List Event}
    (hreads : nesting.Reads first events middle) (second : List Token)
    (failure : Option Error) :
    ofTokens nesting (first ++ second) failure =
      ⟨events ++ (ofTokens middle second failure).events,
        (ofTokens middle second failure).failure⟩ := by
  induction hreads with
  | nil => rfl
  | cons hstep _ ih => simp only [List.cons_append, ofTokens, hstep, ih]

theorem ofTokens_of_reads {nesting final : Nesting} {tokens : List Token} {events : List Event}
    (hreads : nesting.Reads tokens events final) (failure : Option Error) :
    ofTokens nesting tokens failure = ⟨events, failure⟩ := by
  simpa [ofTokens] using ofTokens_append hreads [] failure

/-- Tokens are all read, or nothing is read after one of them, whatever follows. -/
theorem ofTokens_cases (nesting : Nesting) (first : List Token) :
    (∃ events middle, nesting.Reads first events middle) ∨
      ∃ events error, ∀ second failure,
        ofTokens nesting (first ++ second) failure = ⟨events, some error⟩ := by
  induction first generalizing nesting with
  | nil => exact .inl ⟨[], nesting, .nil⟩
  | cons token rest ih =>
      cases hstep : nesting.step token with
      | error error =>
          refine .inr ⟨[], error, fun second failure => ?_⟩
          simp only [List.cons_append, ofTokens, hstep]
      | ok result =>
          obtain ⟨inner, event⟩ := result
          rcases ih inner with ⟨events, middle, hrest⟩ | ⟨events, error, hrest⟩
          · exact .inl ⟨_, middle, .cons hstep hrest⟩
          · refine .inr ⟨event :: events, error, fun second failure => ?_⟩
            simp only [List.cons_append, ofTokens, hstep, hrest]

theorem exists_reads {nesting : Nesting} {tokens : List Token} {failure : Option Error}
    (hfine : (ofTokens nesting tokens failure).failure = none) :
    failure = none ∧
      ∃ final, nesting.Reads tokens (ofTokens nesting tokens failure).events final := by
  rcases ofTokens_cases nesting tokens with ⟨events, final, hreads⟩ | ⟨events, error, hstops⟩
  · rw [ofTokens_of_reads hreads] at hfine ⊢
    exact ⟨hfine, final, hreads⟩
  · have hfails := hstops [] failure
    rw [List.append_nil] at hfails
    simp [hfails] at hfine

end Document

/-! ## The same tokens elsewhere -/

/-- Whether bindings can be declared does not depend on those in scope. -/
theorem exists_bindingsIn {scope inner : List Binding} {attributes : List Attribute}
    (hbindings : bindingsIn scope attributes = .ok inner) (other : List Binding) :
    ∃ inner', bindingsIn other attributes = .ok inner' := by
  induction attributes generalizing scope other with
  | nil => exact ⟨other, rfl⟩
  | cons declared rest ih =>
      rw [bindingsIn] at hbindings ⊢
      cases hbinding : declared.binding? with
      | error cause => simp [hbinding] at hbindings
      | ok binding =>
          cases binding with
          | none => exact ih (by simpa [hbinding] using hbindings) other
          | some binding => exact ih (by simpa [hbinding] using hbindings) (binding :: other)

theorem OpenElement.exists_ofTag {nesting : Nesting} {content : Bytes} {element : OpenElement}
    {name : ElementName} (htag : ofTag nesting content = .ok (element, name)) (other : Nesting) :
    ∃ element' name', ofTag other content = .ok (element', name') ∧
      element'.name = element.name := by
  unfold ofTag at htag ⊢
  split at htag
  · cases htag
  · next scope hbindings =>
      obtain ⟨scope', hbindings'⟩ := exists_bindingsIn hbindings other.scope
      cases htag
      rw [hbindings']
      exact ⟨_, _, rfl, rfl⟩

namespace Nesting

/-- The names of open elements, as they are written. -/
def names (nesting : Nesting) : List Bytes := nesting.map (·.name)

theorem length_eq_of_names {first second : Nesting} (hnames : first.names = second.names) :
    first.length = second.length := by
  simpa [names] using congrArg List.length hnames

theorem exists_of_step_startTag {nesting inner : Nesting} {content : Bytes} {event : Event}
    (hstep : nesting.step (.startTag content) = .ok (inner, event)) :
    ∃ name, event = .start name := by
  cases htag : OpenElement.ofTag nesting content with
  | error cause => simp [step, htag, Except.map] at hstep
  | ok tag =>
      simp only [step, htag, Except.map, Except.ok.injEq, Prod.mk.injEq] at hstep
      exact ⟨_, hstep.2.symm⟩

/-- An end tag ends the element that began last, and only by its name. -/
theorem step_endTag_eq_ok_iff {nesting inner : Nesting} {content : Bytes} {event : Event} :
    nesting.step (.endTag content) = .ok (inner, event) ↔
      ∃ innermost, nesting = innermost :: inner ∧ innermost.name = endName content ∧
        event = .close := by
  cases nesting with
  | nil => simp [step]
  | cons innermost outer =>
      simp only [step]
      constructor
      · intro hstep
        split at hstep
        · next hname =>
            cases hstep
            exact ⟨innermost, rfl, hname, rfl⟩
        · cases hstep
      · rintro ⟨_, hnesting, hname, rfl⟩
        obtain ⟨rfl, rfl⟩ := List.cons.inj hnesting
        rw [if_pos hname]

theorem exists_of_step_close {nesting inner : Nesting} {token : Token}
    (hstep : nesting.step token = .ok (inner, .close)) :
    ∃ content, token = .endTag content := by
  cases token with
  | startTag content =>
      obtain ⟨name, hname⟩ := exists_of_step_startTag hstep
      cases hname
  | emptyTag content =>
      cases htag : OpenElement.ofTag nesting content with
      | error cause => simp [step, htag, Except.map] at hstep
      | ok tag => simp [step, htag, Except.map] at hstep
  | endTag content => exact ⟨content, rfl⟩
  | _ => cases hstep

/-- A token that ends none of the outer elements does the same inside any others. -/
theorem step_elsewhere {inner inner' outer final : Nesting} {token : Token} {event : Event}
    {later : List Event} (hstep : step (inner ++ outer) token = .ok (final, event))
    (hnames : inner.names = inner'.names)
    (hopen : openAfter? inner.length (event :: later) ≠ none) (outer' : Nesting) :
    ∃ last last' event', final = last ++ outer ∧ last.names = last'.names ∧
      step (inner' ++ outer') token = .ok (last' ++ outer', event') ∧
      ∀ rest, openAfter? inner.length (event :: rest) = openAfter? last.length rest ∧
        openAfter? inner.length (event' :: rest) = openAfter? last.length rest := by
  cases token with
  | startTag content =>
      cases htag : OpenElement.ofTag (inner ++ outer) content with
      | error cause => simp [step, htag, Except.map] at hstep
      | ok tag =>
          obtain ⟨element, name⟩ := tag
          simp only [step, htag, Except.map, Except.ok.injEq, Prod.mk.injEq] at hstep
          obtain ⟨rfl, rfl⟩ := hstep
          obtain ⟨element', name', htag', hname⟩ :=
            OpenElement.exists_ofTag htag (inner' ++ outer')
          refine ⟨element :: inner, element' :: inner', .start name', rfl, ?_, ?_, ?_⟩
          · simpa [names, hname] using hnames
          · simp [step, htag', Except.map]
          · exact fun rest => ⟨rfl, rfl⟩
  | emptyTag content =>
      cases htag : OpenElement.ofTag (inner ++ outer) content with
      | error cause => simp [step, htag, Except.map] at hstep
      | ok tag =>
          obtain ⟨element, name⟩ := tag
          simp only [step, htag, Except.map, Except.ok.injEq, Prod.mk.injEq] at hstep
          obtain ⟨rfl, rfl⟩ := hstep
          obtain ⟨element', name', htag', -⟩ := OpenElement.exists_ofTag htag (inner' ++ outer')
          refine ⟨inner, inner', .empty name', rfl, hnames, ?_, ?_⟩
          · simp [step, htag', Except.map]
          · exact fun rest => ⟨by simp [openAfter?], by simp [openAfter?]⟩
  | endTag content =>
      obtain ⟨innermost, hnesting, hname, rfl⟩ := step_endTag_eq_ok_iff.mp hstep
      -- The element that ends is an inner one, for the outer ones stay open.
      cases inner with
      | nil => exact absurd rfl hopen
      | cons last rest =>
          cases inner' with
          | nil => simp [names] at hnames
          | cons last' rest' =>
              obtain ⟨rfl, rfl⟩ := List.cons.inj hnesting
              simp only [names, List.map_cons, List.cons.injEq] at hnames
              have hstep' : step (last' :: rest' ++ outer') (.endTag content) =
                  .ok (rest' ++ outer', .close) :=
                step_endTag_eq_ok_iff.mpr ⟨last', rfl, hnames.1.symm.trans hname, rfl⟩
              exact ⟨rest, rest', .close, rfl, hnames.2, hstep', fun _ => ⟨rfl, rfl⟩⟩
  | _ =>
      simp only [step, Except.ok.injEq, Prod.mk.injEq] at hstep
      obtain ⟨rfl, rfl⟩ := hstep
      exact ⟨inner, inner', _, rfl, hnames, rfl, fun rest =>
        ⟨by simp [openAfter?], by simp [openAfter?]⟩⟩

/-- **Tokens elsewhere.**  Tokens that end none of the outer elements are read inside any
others, nest alike there, and leave the outer elements open. -/
theorem Reads.elsewhere {tokens : List Token} (inner : Nesting) {inner' outer final : Nesting}
    {events : List Event} {depth : Nat} (hreads : Reads (inner ++ outer) tokens events final)
    (hnames : inner.names = inner'.names)
    (hopen : openAfter? inner.length events = some depth) (outer' : Nesting) :
    ∃ last last' events', final = last ++ outer ∧ last.names = last'.names ∧
      last.length = depth ∧ Reads (inner' ++ outer') tokens events' (last' ++ outer') ∧
      openAfter? inner'.length events' = some depth := by
  induction tokens generalizing inner inner' events with
  | nil =>
      cases hreads
      have hdepth : inner.length = depth := by simpa [openAfter?] using hopen
      refine ⟨inner, inner', [], rfl, hnames, hdepth, .nil, ?_⟩
      rw [openAfter?, ← length_eq_of_names hnames, hdepth]
  | cons token rest ih =>
      cases hreads with
      | cons hstep hrest =>
          have hsome := Option.ne_none_iff_exists'.mpr ⟨depth, hopen⟩
          obtain ⟨middle, middle', event', rfl, hmiddle, hstep', hdepth⟩ :=
            step_elsewhere hstep hnames hsome outer'
          rw [(hdepth _).1] at hopen
          obtain ⟨last, last', events', hfinal, hlast, hlength, hreads', hopen'⟩ :=
            ih middle hrest hmiddle hopen
          refine ⟨last, last', event' :: events', hfinal, hlast, hlength, .cons hstep' hreads', ?_⟩
          rw [← length_eq_of_names hnames, (hdepth _).2, length_eq_of_names hmiddle, hopen']

end Nesting

/-! ## Fragments -/

/-- The tokens of a text that is no beginning, and why there are no more, if it does not
end well.  A mark at its front is a character like any other. -/
def tokensWithin (content : Bytes) : List Token × Option Error :=
  let (tokens, state) := Reading.feedAll (.text []) content
  match state.finish with
  | .ok last => (tokens ++ last.toList, none)
  | .error error => (tokens, some error)

/-- What a text says that stands inside open elements. -/
def Document.within (nesting : Nesting) (content : Bytes) : Document :=
  ofTokens nesting (tokensWithin content).1 (tokensWithin content).2

theorem Document.read_eq_within (content : Bytes) : read content = within [] (skipMark content) :=
  rfl

/-- A text that ends between constructs can be read before what follows it. -/
theorem Document.within_append {nesting middle : Nesting} {first : Bytes} {tokens : List Token}
    {events : List Event} (hread : Reading.feedAll (.text []) first = (tokens, .text []))
    (hreads : nesting.Reads tokens events middle) (second : Bytes) :
    within nesting (first ++ second) =
      ⟨events ++ (within middle second).events, (within middle second).failure⟩ := by
  have htokens : tokensWithin (first ++ second) =
      (tokens ++ (tokensWithin second).1, (tokensWithin second).2) := by
    simp only [tokensWithin, Reading.feedAll_append, hread]
    cases (Reading.feedAll (.text []) second).2.finish <;> simp
  rw [within, htokens]
  exact ofTokens_append hreads _ _

/-- A text is well nested on its own: it can be read to its end, it ends no element that
it did not begin, and it leaves none open. -/
def IsFragment (content : Bytes) : Prop :=
  (Document.within [] content).failure = none ∧
    openAfter? 0 (Document.within [] content).events = some 0

instance (content : Bytes) : Decidable (IsFragment content) :=
  inferInstanceAs (Decidable (_ ∧ _))

/-- A text is a fragment exactly if it is well nested wherever it stands. -/
theorem isFragment_iff_within (nesting : Nesting) (content : Bytes) :
    IsFragment content ↔
      (Document.within nesting content).failure = none ∧
        openAfter? 0 (Document.within nesting content).events = some 0 := by
  have hmoves : ∀ outer outer' : Nesting, (Document.within outer content).failure = none →
      openAfter? 0 (Document.within outer content).events = some 0 →
      (Document.within outer' content).failure = none ∧
        openAfter? 0 (Document.within outer' content).events = some 0 := by
    intro outer outer' hfine hopen
    obtain ⟨hnone, final, hreads⟩ := Document.exists_reads hfine
    obtain ⟨last, last', events', -, -, -, hreads', hopen'⟩ :=
      Nesting.Reads.elsewhere [] hreads rfl hopen outer'
    have hwithin : Document.within outer' content = ⟨events', none⟩ := by
      rw [Document.within, hnone]
      exact Document.ofTokens_of_reads hreads' none
    rw [hwithin]
    exact ⟨rfl, hopen'⟩
  exact ⟨fun ⟨hfine, hopen⟩ => hmoves [] nesting hfine hopen,
    fun ⟨hfine, hopen⟩ => hmoves nesting [] hfine hopen⟩

theorem IsFragment.reads {content : Bytes} (hfragment : IsFragment content) (nesting : Nesting) :
    (tokensWithin content).2 = none ∧
      nesting.Reads (tokensWithin content).1 (Document.within nesting content).events nesting := by
  obtain ⟨hfine, hopen⟩ := (isFragment_iff_within nesting content).mp hfragment
  obtain ⟨hnone, final, hreads⟩ := Document.exists_reads hfine
  obtain ⟨last, -, -, hfinal, -, hlength, -⟩ :=
    Nesting.Reads.elsewhere [] hreads rfl hopen []
  rw [List.eq_nil_of_length_eq_zero hlength, List.nil_append] at hfinal
  exact ⟨hnone, hfinal ▸ hreads⟩

end KerberosHttp.Xml
