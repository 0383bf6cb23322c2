import KerberosHttp.Proofs.Xml.Reading

/-!
# Cutting a text

The reader never looks ahead: what it delivers of the beginning of a text is what it
delivers of the text, as far as that goes.  Only the construct in which the text is cut
may be read otherwise.

* `rootEnd?` is the number of octets up to the end of the root.  The last of them ends
  the tag, and what is delivered up to there ends with the end of the root
  (`endsRoot_of_rootEnd?`).
* `BetweenEvents` says that a text is cut between two events.  There the beginning of a
  document that is read to its end is read to its end, and says the beginning of what
  the document says (`BetweenEvents.read`).
-/

namespace KerberosHttp.Xml

/-! ## The end of the root -/

/-- Among some events the only element that is open ends. -/
def RootEnds (events : List Event) : Prop :=
  ∃ before after, events = before ++ .close :: after ∧ openAfter? 0 before = some 1

/-- The root has begun and has not ended. -/
def RootOpen (events : List Event) : Prop :=
  ∃ depth, openAfter? 0 events = some (depth + 1)

instance (events : List Event) : Decidable (RootEnds events) :=
  decidable_of_iff
    (∃ count, count < events.length ∧ events[count]? = some .close ∧
      openAfter? 0 (events.take count) = some 1)
    ⟨fun ⟨count, hcount, hclose, hopen⟩ => by
      refine ⟨events.take count, events.drop (count + 1), ?_, hopen⟩
      have hget : events[count] = .close := by simpa [hcount] using hclose
      rw [← hget, List.getElem_cons_drop, List.take_append_drop],
    fun ⟨before, after, hevents, hopen⟩ => by
      subst hevents
      exact ⟨before.length, by simp, by simp, by simpa using hopen⟩⟩

/-- The number of octets of a text up to the end of the root. -/
def rootEnd? (content : Bytes) : Option Nat :=
  (List.range (content.length + 1)).find? fun count =>
    RootEnds (Document.read (content.take count)).events

theorem RootEnds.append {events : List Event} (hends : RootEnds events) (more : List Event) :
    RootEnds (events ++ more) := by
  obtain ⟨before, after, rfl, hopen⟩ := hends
  exact ⟨before, after ++ more, by simp, hopen⟩

/-- Among further events that are no ends the root does not end. -/
theorem RootEnds.of_append {events more : List Event} (hends : RootEnds (events ++ more))
    (hmore : .close ∉ more) : RootEnds events := by
  obtain ⟨before, after, hsame, hopen⟩ := hends
  rcases List.append_eq_append_iff.mp hsame with ⟨middle, rfl, hmiddle⟩ | ⟨middle, rfl, hmiddle⟩
  · exact absurd (by rw [hmiddle]; simp) hmore
  · cases middle with
    | nil => exact absurd (by rw [← List.nil_append more, ← hmiddle]; simp) hmore
    | cons event middle =>
        obtain ⟨rfl, rfl⟩ := List.cons.inj hmiddle
        exact ⟨before, middle, rfl, hopen⟩

/-- The end of the root is the only one of its kind, if it comes last. -/
theorem RootEnds.openAfter?_eq {events : List Event} (hends : RootEnds (events ++ [.close]))
    (hfirst : ¬ RootEnds events) : openAfter? 0 events = some 1 := by
  obtain ⟨before, after, hsame, hopen⟩ := hends
  rcases List.eq_nil_or_concat after with rfl | ⟨middle, last, rfl⟩
  · obtain ⟨rfl, -⟩ := List.append_inj' hsame rfl
    exact hopen
  · have hsplit : events ++ [.close] = (before ++ .close :: middle) ++ [last] := by
      simpa using hsame
    obtain ⟨rfl, -⟩ := List.append_inj' hsplit rfl
    exact absurd ⟨before, middle, rfl, hopen⟩ hfirst

/-- The root of a document ends, unless it is empty. -/
theorem Content.Spells.rootEnds {content : Content} {events : List Event} {root : Element}
    (hspells : content.Spells events) (hroot : content.elements = [root])
    (hinside : root.content ≠ .nil) : RootEnds events := by
  -- What stands before the root leaves nothing open, so it may be put in front.
  have hgoes : ∀ front, openAfter? 0 front = some 0 → RootEnds (front ++ events) := by
    induction hspells with
    | nil => cases hroot
    | empty =>
        obtain ⟨rfl, -⟩ := List.cons.inj hroot
        exact absurd rfl hinside
    | @element name _ _ inner after hinner =>
        intro front hfront
        refine ⟨front ++ .start name :: inner, after, by simp, ?_⟩
        rw [openAfter?_append hfront, openAfter?, hinner.openAfter?_eq]
    | @leaf leaf _ after _ ih =>
        intro front hfront
        have hleaf : openAfter? 0 (front ++ [leaf.event]) = some 0 := by
          rw [openAfter?_append hfront]
          cases leaf <;> rfl
        have hrest := ih hroot (front ++ [leaf.event]) hleaf
        rwa [List.append_assoc] at hrest
  exact hgoes [] rfl

/-! ## Where the root ends -/

theorem rootEnd?_eq_some_iff {content : Bytes} {stop : Nat} :
    rootEnd? content = some stop ↔
      stop ≤ content.length ∧ RootEnds (Document.read (content.take stop)).events ∧
        ∀ count, count < stop → ¬ RootEnds (Document.read (content.take count)).events := by
  simp only [rootEnd?, List.find?_range_eq_some, List.mem_range, decide_eq_true_eq,
    Bool.not_eq_true', decide_eq_false_iff_not]
  constructor
  · rintro ⟨hends, hstop, hbefore⟩
    exact ⟨by omega, hends, hbefore⟩
  · rintro ⟨hstop, hends, hbefore⟩
    exact ⟨hends, by omega, hbefore⟩

theorem exists_rootEnd? {content : Bytes} (hends : RootEnds (Document.read content).events) :
    ∃ stop, rootEnd? content = some stop := by
  have hsome : (rootEnd? content).isSome := by
    rw [rootEnd?, List.find?_isSome]
    exact ⟨content.length, by simp, by simpa using hends⟩
  exact Option.isSome_iff_exists.mp hsome

theorem not_rootEnds_of_lt {first second : Bytes} {stop : Nat}
    (hstop : rootEnd? (first ++ second) = some stop) (hcut : first.length < stop) :
    ¬ RootEnds (Document.read first).events := by
  have hbefore := (rootEnd?_eq_some_iff.mp hstop).2.2 first.length hcut
  rwa [List.take_left] at hbefore

/-- What a text ends with, after its last construct, is characters. -/
theorem exists_tokensWithin (content : Bytes) :
    ∃ last failure, tokensWithin content =
        ((Reading.feedAll (.text []) content).1 ++ last, failure) ∧
      ∀ token ∈ last, ∃ characters, token = .text characters := by
  rcases hread : Reading.feedAll (.text []) content with ⟨tokens, state⟩
  cases hfinish : state.finish with
  | error error => exact ⟨[], some error, by simp [tokensWithin, hread, hfinish], by simp⟩
  | ok last =>
      refine ⟨last.toList, none, by simp [tokensWithin, hread, hfinish], ?_⟩
      obtain ⟨seen, rfl⟩ := Reading.exists_text_of_finish hfinish
      cases seen with
      | nil =>
          cases hfinish
          simp
      | cons octet seen =>
          cases hfinish
          simp

theorem Document.close_not_mem_ofTokens (nesting : Nesting) {tokens : List Token}
    (htokens : ∀ content, .endTag content ∉ tokens) (failure : Option Error) :
    .close ∉ (ofTokens nesting tokens failure).events := by
  induction tokens generalizing nesting with
  | nil => exact List.not_mem_nil
  | cons token rest ih =>
      have hrest : ∀ content, .endTag content ∉ rest :=
        fun content hmem => htokens content (List.mem_cons_of_mem _ hmem)
      rw [ofTokens]
      split
      · exact List.not_mem_nil
      · next inner event hstep =>
          rw [List.mem_cons, not_or]
          refine ⟨?_, ih inner hrest⟩
          rintro rfl
          obtain ⟨content, rfl⟩ := Nesting.exists_of_step_close hstep
          exact htokens content List.mem_cons_self

/-- The octet with which the root has ended is the last one of an end tag. -/
theorem exists_reads_of_rootEnds {front : Bytes} {octet : UInt8}
    (hfirst : ¬ RootEnds (Document.read front).events)
    (hends : RootEnds (Document.read (front ++ [octet])).events) :
    octet = '>'.toUInt8 ∧ ∃ tokens events final,
      Reading.feedAll (.text []) (skipMark (front ++ [octet])) = (tokens, .text []) ∧
        Nesting.Reads [] tokens (events ++ [.close]) final ∧ openAfter? 0 events = some 1 := by
  rw [Document.read_eq_within, Document.within] at hfirst hends
  rcases skipMark_append front [octet] with hskip | ⟨hshort, hmark⟩
  · rcases hread : Reading.feedAll (.text []) (skipMark front) with ⟨tokens, state⟩
    rcases hfeed : state.feed octet with ⟨next, token⟩
    have hwhole : Reading.feedAll (.text []) (skipMark (front ++ [octet])) =
        (tokens ++ token.toList, next) := by
      simp [hskip, Reading.feedAll_append, hread, Reading.feedAll, hfeed]
    obtain ⟨last, failure, hlast, -⟩ := exists_tokensWithin (skipMark front)
    obtain ⟨last', failure', hlast', htexts⟩ := exists_tokensWithin (skipMark (front ++ [octet]))
    have hnone : ∀ content, .endTag content ∉ last' := by
      intro content hmem
      obtain ⟨characters, htext⟩ := htexts _ hmem
      cases htext
    rw [hlast, hread] at hfirst
    rw [hlast', hwhole, List.append_assoc] at hends
    rcases Document.ofTokens_cases [] tokens with ⟨events, middle, hreads⟩ | ⟨events, error, hstops⟩
    · rw [Document.ofTokens_append hreads] at hfirst hends
      have hevents : ¬ RootEnds events := fun hearlier => hfirst (hearlier.append _)
      by_cases htag : ∃ content, token = some (.endTag content)
      · obtain ⟨content, rfl⟩ := htag
        obtain ⟨hoctet, rfl⟩ := Reading.of_feed_endTag hfeed
        rw [Option.toList_some, List.singleton_append, Document.ofTokens] at hends
        cases hstep : middle.step (.endTag content) with
        | error error =>
            simp only [hstep, List.append_nil] at hends
            exact absurd hends hevents
        | ok result =>
            obtain ⟨inner, event⟩ := result
            obtain ⟨-, -, -, rfl⟩ := Nesting.step_endTag_eq_ok_iff.mp hstep
            simp only [hstep] at hends
            rw [← List.singleton_append, ← List.append_assoc] at hends
            have hlast := hends.of_append (Document.close_not_mem_ofTokens _ hnone _)
            exact ⟨hoctet, _, events, inner, hwhole, hreads.append (.cons hstep .nil),
              hlast.openAfter?_eq hevents⟩
      · -- What is said after the earlier events holds no end.
        have hlater : ∀ content, .endTag content ∉ token.toList ++ last' := by
          intro content hmem
          rcases List.mem_append.mp hmem with htoken | hlast
          · exact htag ⟨content, by simpa using htoken⟩
          · exact hnone content hlast
        exact absurd (hends.of_append (Document.close_not_mem_ofTokens _ hlater _)) hevents
    · -- Nothing is said after a token that cannot be read.
      rw [hstops] at hfirst hends
      exact absurd hends hfirst
  · -- The octet completes the mark, which says nothing.
    have hlength : (front ++ [octet]).length ≤ byteOrderMark.length := by
      rw [List.length_append, List.length_singleton]
      exact hshort
    rw [← hmark.eq_of_length_le hlength] at hends
    exact absurd hends (by decide)

/-- A text is cut at the end of its root: there ends a tag, it ends the only element that
is open, and what is said up to it is the beginning of what the whole says. -/
structure EndsRoot (first second : Bytes) : Prop where
  octet : first.getLast? = some '>'.toUInt8
  events : ∃ events, Document.read first = ⟨events ++ [.close], none⟩ ∧
    openAfter? 0 events = some 1 ∧
      events ++ [.close] <+: (Document.read (first ++ second)).events

theorem endsRoot_of_rootEnd? {content : Bytes} {stop : Nat}
    (hstop : rootEnd? content = some stop) :
    EndsRoot (content.take stop) (content.drop stop) := by
  obtain ⟨hlength, hends, hbefore⟩ := rootEnd?_eq_some_iff.mp hstop
  cases stop with
  | zero =>
      rw [List.take_zero] at hends
      exact absurd hends (by decide)
  | succ count =>
      have htake : content.take (count + 1) = content.take count ++ [content[count]] :=
        List.take_succ_eq_append_getElem (by omega)
      have hfirst := hbefore count (Nat.lt_succ_self _)
      rw [htake] at hends
      obtain ⟨hoctet, tokens, events, final, hread, hreads, hopen⟩ :=
        exists_reads_of_rootEnds hfirst hends
      rw [← htake] at hread
      refine ⟨by rw [htake, List.getLast?_concat, hoctet], events, ?_, hopen, ?_⟩
      · have hwithin := Document.within_append hread hreads []
        rw [List.append_nil] at hwithin
        exact hwithin.trans (by simp [Document.within, tokensWithin, Reading.feedAll,
          Reading.finish, Document.ofTokens])
      · rcases skipMark_append (content.take (count + 1)) (content.drop (count + 1)) with
          hskip | ⟨hshort, hmark⟩
        · rw [Document.read_eq_within, hskip, Document.within_append hread hreads]
          exact List.prefix_append _ _
        · -- The mark holds no such octet.
          have hin : content.take (count + 1) <+: byteOrderMark :=
            List.prefix_of_prefix_length_le (List.prefix_append _ _) hmark (by omega)
          have hmem : '>'.toUInt8 ∈ byteOrderMark :=
            hin.subset (by rw [htake, hoctet]; simp)
          exact absurd hmem (by decide)

/-! ## Cuts between events -/

/-- A text is cut between two events: the reader is in the middle of no construct, and
the characters that it has read, if any, end there. -/
def BetweenEvents (first second : Bytes) : Prop :=
  ∃ seen, (Reading.feedAll (.text []) (skipMark first)).2 = .text seen ∧
    (seen = [] ∨ second.head? = some '<'.toUInt8)

/-- Before a cut between two constructs a text has the first tokens of the whole. -/
theorem exists_tokensWithin_append {first second seen : Bytes} {tokens : List Token}
    (hread : Reading.feedAll (.text []) first = (tokens, .text seen))
    (hends : seen = [] ∨ second.head? = some '<'.toUInt8) :
    (tokensWithin first).2 = none ∧ ∃ later failure,
      tokensWithin (first ++ second) = ((tokensWithin first).1 ++ later, failure) := by
  obtain ⟨last, failure, hwhole, -⟩ := exists_tokensWithin (first ++ second)
  rw [Reading.feedAll_append, hread] at hwhole
  cases seen with
  | nil =>
      have hfirst : tokensWithin first = (tokens, none) := by
        simp [tokensWithin, hread, Reading.finish]
      rw [hfirst, hwhole, List.append_assoc]
      exact ⟨rfl, _, _, rfl⟩
  | cons octet seen =>
      have hfirst : tokensWithin first = (tokens ++ [.text (octet :: seen).reverse], none) := by
        simp [tokensWithin, hread, Reading.finish]
      have hhead := hends.resolve_left (List.cons_ne_nil _ _)
      obtain ⟨rest, rfl⟩ := List.head?_eq_some_iff.mp hhead
      have hnext : (Reading.text (octet :: seen)).feedAll ('<'.toUInt8 :: rest) =
          (.text (octet :: seen).reverse :: (Reading.opened.feedAll rest).1,
            (Reading.opened.feedAll rest).2) := rfl
      rw [hfirst, hwhole, hnext]
      exact ⟨rfl, _, _, by simp only [List.append_assoc, List.cons_append, List.nil_append]; rfl⟩

/-- A document that is read to its end is, up to a cut between two events, a document
that is read to its end, and its events are the first of those of the whole. -/
theorem BetweenEvents.read {first second : Bytes} (hbetween : BetweenEvents first second)
    (hfine : (Document.read (first ++ second)).failure = none) :
    (Document.read first).failure = none ∧
      (Document.read first).events <+: (Document.read (first ++ second)).events := by
  obtain ⟨seen, hstate, hends⟩ := hbetween
  rcases skipMark_append first second with hskip | ⟨hshort, hmark⟩
  · rcases hread : Reading.feedAll (.text []) (skipMark first) with ⟨tokens, state⟩
    rw [hread] at hstate
    obtain rfl : state = .text seen := hstate
    obtain ⟨hnone, later, failure, hwhole⟩ := exists_tokensWithin_append hread hends
    have hafter : Document.read (first ++ second) =
        Document.ofTokens [] ((tokensWithin (skipMark first)).1 ++ later) failure := by
      rw [Document.read_eq_within, hskip, Document.within, hwhole]
    rw [hafter] at hfine ⊢
    obtain ⟨-, final, hreads⟩ := Document.exists_reads hfine
    obtain ⟨events, middle, others, hall, hbefore, -⟩ := Nesting.reads_append_iff.mp hreads
    rw [hall, Document.read_eq_within, Document.within, hnone, Document.ofTokens_of_reads hbefore]
    exact ⟨rfl, List.prefix_append _ _⟩
  · -- Within the mark its beginning is taken for characters, which do not end there.
    obtain ⟨rest, hrest⟩ := hmark
    rcases first with _ | ⟨octet, _ | ⟨next, _ | ⟨third, tail⟩⟩⟩
    · exact ⟨rfl, List.nil_prefix⟩
    · obtain ⟨rfl, rfl⟩ := List.cons.inj hrest
      cases hstate
      exact absurd hends (by simp; decide)
    · obtain ⟨rfl, hsecond⟩ := List.cons.inj hrest
      obtain ⟨rfl, rfl⟩ := List.cons.inj hsecond
      cases hstate
      exact absurd hends (by simp; decide)
    · have hlong : byteOrderMark.length = 3 := rfl
      simp only [List.length_cons] at hshort
      omega

end KerberosHttp.Xml
