import KerberosHttp.Proofs.Soap.Message
import KerberosHttp.Proofs.Soap.Outline
import KerberosHttp.Proofs.Xml.Reading

/-!
# What a message made from a text holds

`Message.ofBody` puts a text between the tags that open an envelope with a body and
those that close them, and reads the whole as one document.  Nothing looks at the text
on its own, so a text may end the body itself and begin another one.

A message encloses its text, `Encloses`, if the body that was opened for the text is
closed by the tags that follow it, and is all that the envelope holds.  The main
statement says that this is so exactly if the text is a fragment, and that otherwise the
text has given the envelope another child.

## Strategy

What the reader is in the middle of after the text decides how it reads the closing
tags.  Most states swallow them and never end; three are left:

```text
characters      both tags are read as they stand
a start tag     the first is swallowed by a start tag
an end tag      the first is swallowed by an end tag
```

In each of them the last event is the end of the envelope (`tokensWithin_append_closing`).
The tree of the document then shows where the body ends: if the envelope has no other
child, the event before the last ends the body, and all of the text is in it.
-/

namespace KerberosHttp.Soap

open Xml

/-! ## The opening -/

/-- The document that a message is made of. -/
def wrapped (version : Version) (body : String) : Bytes :=
  Utf8.encode (Message.opening version ++ body ++ Message.closing)

/-- The elements that stand open around the text of a message. -/
def wrapper (version : Version) : Nesting :=
  let scope := ⟨some (Bytes.ofAscii "env"), version.uriBytes⟩ :: reservedBindings
  [⟨Bytes.ofAscii "env:Body", scope⟩, ⟨Bytes.ofAscii "env:Envelope", scope⟩]

/-- What the opening says. -/
def openingEvents (version : Version) : List Event :=
  [.other, .start (version.named "Envelope"), .start (version.named "Body")]

/-- The tokens of the opening. -/
def openingTokens (version : Version) : List Token :=
  [.instruction (Bytes.ofAscii "xml version=\"1.0\" encoding=\"UTF-8\""),
    .startTag (Bytes.ofAscii "env:Envelope xmlns:env=\"" ++ version.uriBytes ++
      Bytes.ofAscii "\""),
    .startTag (Bytes.ofAscii "env:Body")]

theorem feedAll_opening (version : Version) :
    Reading.feedAll (.text []) (Utf8.encode (Message.opening version)) =
      (openingTokens version, .text []) := by
  cases version <;> decide +kernel

theorem reads_opening (version : Version) :
    Nesting.Reads [] (openingTokens version) (openingEvents version) (wrapper version) := by
  cases version with
  | v1_1 => exact .cons rfl (.cons rfl (.cons rfl .nil))
  | v1_2 => exact .cons rfl (.cons rfl (.cons rfl .nil))

theorem skipMark_opening (version : Version) (rest : Bytes) :
    skipMark (Utf8.encode (Message.opening version) ++ rest) =
      Utf8.encode (Message.opening version) ++ rest := by
  have hhead : (Utf8.encode (Message.opening version)).head? = some '<'.toUInt8 := by
    cases version <;> decide +kernel
  refine skipMark_of_head? ?_
  rw [List.head?_append, hhead, Option.some_or]
  decide

/-- The document of a message: the opening, and the text with the closing in the elements
that the opening began. -/
theorem read_wrapped (version : Version) (body : String) :
    Document.read (wrapped version body) =
      ⟨openingEvents version ++ (Document.within (wrapper version)
          (Utf8.encode body ++ Utf8.encode Message.closing)).events,
        (Document.within (wrapper version)
          (Utf8.encode body ++ Utf8.encode Message.closing)).failure⟩ := by
  have hwrapped : wrapped version body = Utf8.encode (Message.opening version) ++
      (Utf8.encode body ++ Utf8.encode Message.closing) := by
    rw [wrapped, Utf8.encode_append, Utf8.encode_append, List.append_assoc]
  rw [hwrapped, Document.read_eq_within, skipMark_opening]
  exact Document.within_append (feedAll_opening version) (reads_opening version) _

/-! ## The closing -/

/-- The tag that ends the body, and the one that ends the envelope. -/
def bodyEnd : Token := .endTag (Bytes.ofAscii "env:Body")

@[inherit_doc bodyEnd]
def envelopeEnd : Token := .endTag (Bytes.ofAscii "env:Envelope")

/-- How the first of the closing tags is read after a text: as it stands, or as the end
of a tag that the text left open. -/
inductive ReadsFirstAs (content : Bytes) : Token → Prop
  | itself (hends : (tokensWithin content).2 = none) : ReadsFirstAs content bodyEnd
  | startTag (swallowing : Bytes) : ReadsFirstAs content (.startTag swallowing)
  | endTag (front : Bytes) :
      ReadsFirstAs content (.endTag (front ++ Bytes.ofAscii "</env:Body"))

theorem feedAll_closing_text (seen : Bytes) :
    ∃ last, (Reading.text seen).finish = .ok last ∧
      Reading.feedAll (.text seen) (Utf8.encode Message.closing) =
        (last.toList ++ [bodyEnd, envelopeEnd], .text []) := by
  cases seen with
  | nil => exact ⟨none, rfl, rfl⟩
  | cons octet seen => exact ⟨_, rfl, rfl⟩

theorem feedAll_closing_tag (closing : Bool) (seen : Bytes) :
    Reading.feedAll (.tag closing none seen) (Utf8.encode Message.closing) =
      ([if closing then .endTag (seen.reverse ++ Bytes.ofAscii "</env:Body")
        else .startTag (seen.reverse ++ Bytes.ofAscii "</env:Body"), envelopeEnd], .text []) := by
  have hseen : seen.reverse ++ Bytes.ofAscii "</env:Body" =
      ((Bytes.ofAscii "</env:Body").reverse ++ seen).reverse := by simp
  rw [hseen]
  cases closing <;> rfl

theorem exists_text_of_tokensWithin {content : Bytes} (hends : (tokensWithin content).2 = none) :
    ∃ seen, Reading.feedAll (.text []) content =
      ((Reading.feedAll (.text []) content).1, .text seen) := by
  unfold tokensWithin at hends
  cases hfinish : (Reading.feedAll (.text []) content).2.finish with
  | error error => simp [hfinish] at hends
  | ok last =>
      obtain ⟨seen, hstate⟩ := Reading.exists_text_of_finish hfinish
      exact ⟨seen, by rw [← hstate]⟩

/-- After a text that ends among characters the closing is read as it stands. -/
theorem tokensWithin_append_closing_of_text {content seen : Bytes} {tokens : List Token}
    (hread : Reading.feedAll (.text []) content = (tokens, .text seen)) :
    (tokensWithin content).2 = none ∧
      tokensWithin (content ++ Utf8.encode Message.closing) =
        ((tokensWithin content).1 ++ [bodyEnd, envelopeEnd], none) := by
  obtain ⟨last, hfinish, hclosing⟩ := feedAll_closing_text seen
  have htokens : tokensWithin content = (tokens ++ last.toList, none) := by
    simp [tokensWithin, hread, hfinish]
  refine ⟨by rw [htokens], ?_⟩
  rw [htokens]
  simp [tokensWithin, Reading.feedAll_append, hread, hclosing, Reading.finish]

/-- A text with the closing after it ends well in three ways only. -/
theorem tokensWithin_append_closing {content : Bytes}
    (hends : (tokensWithin (content ++ Utf8.encode Message.closing)).2 = none) :
    ∃ first, ReadsFirstAs content first ∧
      tokensWithin (content ++ Utf8.encode Message.closing) =
        ((tokensWithin content).1 ++ [first, envelopeEnd], none) := by
  have hfresh : (Reading.text []).Quoted := trivial
  have hquoted := Reading.quoted_feedAll hfresh content
  rcases hread : Reading.feedAll (.text []) content with ⟨tokens, state⟩
  rw [hread] at hquoted
  have hwhole : ∀ front, Reading.feedAll state (Utf8.encode Message.closing) = (front, .text []) →
      tokensWithin (content ++ Utf8.encode Message.closing) = (tokens ++ front, none) := by
    intro front hclosing
    simp [tokensWithin, Reading.feedAll_append, hread, hclosing, Reading.finish]
  -- A state from which the closing is never read to its end leaves an error.
  have hnever : ∀ error,
      (Reading.feedAll state (Utf8.encode Message.closing)).2.finish ≠ .error error := by
    intro error hfinish
    simp [tokensWithin, Reading.feedAll_append, hread, hfinish] at hends
  have htag : ∀ closing seen, state.finish = .error (.markup .unclosedTag) →
      Reading.feedAll state (Utf8.encode Message.closing) =
        Reading.feedAll (.tag closing none seen) (Utf8.encode Message.closing) →
      ∃ first, ReadsFirstAs content first ∧
        tokensWithin (content ++ Utf8.encode Message.closing) =
          ((tokensWithin content).1 ++ [first, envelopeEnd], none) := by
    intro closing seen hopen hsame
    have htokens : (tokensWithin content).1 = tokens := by simp [tokensWithin, hread, hopen]
    rw [htokens]
    rw [feedAll_closing_tag] at hsame
    cases closing with
    | true => exact ⟨_, .endTag seen.reverse, hwhole _ hsame⟩
    | false => exact ⟨_, .startTag _, hwhole _ hsame⟩
  cases state with
  | text seen =>
      obtain ⟨hnone, hwhole⟩ := tokensWithin_append_closing_of_text hread
      exact ⟨bodyEnd, .itself hnone, hwhole⟩
  | opened => exact htag false [] rfl rfl
  | tag closing quote seen =>
      cases quote with
      | none => exact htag closing seen rfl rfl
      | some mark =>
          rcases hquoted with rfl | rfl
          · exact absurd rfl (hnever (.markup .unclosedTag))
          · exact absurd rfl (hnever (.markup .unclosedTag))
  | declaration => exact absurd rfl (hnever (.markup .unknownDeclaration))
  | comment seen => exact absurd rfl (hnever (.markup .unclosedComment))
  | cdata seen => exact absurd rfl (hnever (.markup .unclosedCData))
  | doctype depth seen => exact absurd rfl (hnever (.markup .unclosedDoctype))
  | instruction seen => exact absurd rfl (hnever (.markup .unclosedInstruction))
  | failed error => exact absurd rfl (hnever error)

/-! ## The tree -/

/-- The message holds all of its text in the body that was opened for it. -/
structure Encloses (version : Version) (body : String) : Prop where
  /-- The text is well nested on its own. -/
  fragment : IsFragment (Utf8.encode body)
  /-- Between the opening and the two ends of the closing stands what the text says. -/
  events : (Document.read (wrapped version body)).events =
    openingEvents version ++
      (Document.within (wrapper version) (Utf8.encode body)).events ++ [.close, .close]
  /-- The envelope holds the body and nothing else, and the body what the text says. -/
  tree : ∃ inside : Content,
    inside.Spells (Document.within (wrapper version) (Utf8.encode body)).events ∧
    (Content.leaf .other (.element (version.named "Envelope")
      (.element (version.named "Body") inside .nil) .nil)).Spells
        (Document.read (wrapped version body)).events

/-- The envelope has another child beside its first. -/
def HasSecondChild (document : Document) : Prop :=
  ∃ (content : Content) (root first second : Element) (others : List Element),
    content.Spells document.events ∧ content.elements = [root] ∧
      root.content.elements = first :: second :: others

/-- A fragment is read between the opening and the two ends of the closing. -/
theorem read_wrapped_of_isFragment (version : Version) {body : String}
    (hfragment : IsFragment (Utf8.encode body)) :
    Document.read (wrapped version body) =
      ⟨openingEvents version ++
        (Document.within (wrapper version) (Utf8.encode body)).events ++ [.close, .close], none⟩ := by
  obtain ⟨hends, hreads⟩ := hfragment.reads (wrapper version)
  obtain ⟨-, hclosing⟩ : (tokensWithin (Utf8.encode body)).2 = none ∧
      tokensWithin (Utf8.encode body ++ Utf8.encode Message.closing) =
        ((tokensWithin (Utf8.encode body)).1 ++ [bodyEnd, envelopeEnd], none) := by
    obtain ⟨seen, hread⟩ := exists_text_of_tokensWithin hends
    exact tokensWithin_append_closing_of_text hread
  have hcloses : (wrapper version).Reads [bodyEnd, envelopeEnd] [.close, .close] [] :=
    .cons rfl (.cons rfl .nil)
  have hwithin : Document.within (wrapper version)
      (Utf8.encode body ++ Utf8.encode Message.closing) =
        ⟨(Document.within (wrapper version) (Utf8.encode body)).events ++ [.close, .close],
          none⟩ := by
    rw [Document.within, hclosing]
    exact Document.ofTokens_of_reads (hreads.append hcloses) none
  rw [read_wrapped, hwithin, List.append_assoc]

theorem encloses_of_isFragment (version : Version) {body : String}
    (hfragment : IsFragment (Utf8.encode body)) : Encloses version body := by
  have hevents : (Document.read (wrapped version body)).events = openingEvents version ++
      (Document.within (wrapper version) (Utf8.encode body)).events ++ [.close, .close] := by
    rw [read_wrapped_of_isFragment version hfragment]
  obtain ⟨-, hopen⟩ := (isFragment_iff_within (wrapper version) _).mp hfragment
  obtain ⟨inside, htree⟩ := Content.exists_ofEvents? hopen
  have hinside := Content.spells_of_ofEvents? htree
  refine ⟨hfragment, hevents, inside, hinside, ?_⟩
  rw [hevents]
  have hbody : Content.Spells (.element (version.named "Body") inside .nil) _ :=
    .element hinside .nil
  have henvelope : Content.Spells (.leaf .other (.element (version.named "Envelope")
      (.element (version.named "Body") inside .nil) .nil)) _ :=
    .leaf (.element hbody .nil)
  simpa [openingEvents, Leaf.event] using henvelope

/-- Leaves after the end of an element end nothing themselves. -/
theorem last_of_leaves {front others leaves : List Event} {last : Event}
    (hleaves : ∀ event ∈ leaves, ∃ leaf : Leaf, event = leaf.event)
    (hlast : ∀ leaf : Leaf, last ≠ leaf.event)
    (hsame : front ++ .close :: leaves = others ++ [last]) :
    leaves = [] ∧ front = others ∧ last = .close := by
  rcases List.eq_nil_or_concat leaves with rfl | ⟨before, final, rfl⟩
  · obtain ⟨hfront, hclose⟩ := List.append_inj' hsame rfl
    exact ⟨rfl, hfront, (List.cons.inj hclose).1.symm⟩
  · obtain ⟨leaf, hleaf⟩ := hleaves final (by simp)
    have hends : (front ++ .close :: before.concat final).getLast? = (others ++ [last]).getLast? :=
      congrArg List.getLast? hsame
    have hfinal : final = last := by simpa [List.getLast?_append, List.getLast?_cons] using hends
    exact absurd (hfinal.symm.trans hleaf) (hlast leaf)

/-- The tree of a document that begins like that of a message. -/
theorem spells_openingEvents {version : Version} {content : Content} {later : List Event}
    (hspells : content.Spells (openingEvents version ++ later)) :
    ∃ held more rest inner middle after,
      content = .leaf .other (.element (version.named "Envelope")
        (.element (version.named "Body") held more) rest) ∧
      held.Spells inner ∧ more.Spells middle ∧ rest.Spells after ∧
      later = inner ++ .close :: (middle ++ .close :: after) := by
  have hother : openingEvents version ++ later = Leaf.other.event ::
      .start (version.named "Envelope") :: .start (version.named "Body") :: later := rfl
  rw [hother] at hspells
  obtain ⟨others, rfl, hothers⟩ := hspells.of_leaf
  obtain ⟨inside, rest, inner, after, rfl, hinside, hrest, hlater⟩ := hothers.of_start
  cases inner with
  | nil => cases hlater
  | cons event inner =>
      obtain ⟨rfl, rfl⟩ := List.cons.inj hlater
      obtain ⟨held, more, inner, middle, rfl, hheld, hmore, rfl⟩ := hinside.of_start
      exact ⟨held, more, rest, inner, middle, after, rfl, hheld, hmore, hrest, by simp⟩

theorem ReadsFirstAs.event {content : Bytes} {first : Token}
    (hfirst : ReadsFirstAs content first) {nesting inner : Nesting} {event : Event}
    (hstep : nesting.step first = .ok (inner, event)) (leaf : Leaf) : event ≠ leaf.event := by
  have hend : ∀ name, first = .endTag name → event ≠ leaf.event := by
    rintro name rfl
    obtain ⟨-, -, -, rfl⟩ := Nesting.step_endTag_eq_ok_iff.mp hstep
    exact leaf.event_ne_close.symm
  cases hfirst with
  | itself => exact hend _ rfl
  | startTag swallowing =>
      obtain ⟨name, rfl⟩ := Nesting.exists_of_step_startTag hstep
      exact (leaf.event_ne_start name).symm
  | endTag front => exact hend _ rfl

/-- Only the tag itself ends the body that was opened for the text. -/
theorem ReadsFirstAs.eq_itself {version : Version} {content : Bytes} {first : Token}
    (hfirst : ReadsFirstAs content first) {inner : Nesting}
    (hstep : (wrapper version).step first = .ok (inner, .close)) :
    (tokensWithin content).2 = none := by
  cases hfirst with
  | itself hends => exact hends
  | startTag swallowing =>
      obtain ⟨name, hname⟩ := Nesting.exists_of_step_startTag hstep
      cases hname
  | endTag front =>
      obtain ⟨body, hbody, hname, -⟩ := Nesting.step_endTag_eq_ok_iff.mp hstep
      obtain ⟨rfl, -⟩ := List.cons.inj hbody
      -- The swallowed tag makes the name too long.
      have hfull : endName (front ++ Bytes.ofAscii "</env:Body") =
          front ++ Bytes.ofAscii "</env:Body" := by
        have hlast : front ++ Bytes.ofAscii "</env:Body" =
            (front ++ Bytes.ofAscii "</env:Bod") ++ ['y'.toUInt8] := by
          rw [List.append_assoc]
          rfl
        rw [hlast]
        exact endName_append _ (by decide)
      rw [hfull] at hname
      have hlength : (Bytes.ofAscii "env:Body").length =
          front.length + (Bytes.ofAscii "</env:Body").length := by
        simpa using congrArg List.length hname
      have hshort : (Bytes.ofAscii "env:Body").length = 8 := rfl
      have hlong : (Bytes.ofAscii "</env:Body").length = 10 := rfl
      omega

/-- A text in an envelope that is accepted is a fragment, or gives it another child. -/
theorem isFragment_or_hasSecondChild {version : Version} {body : String} {envelope : Envelope}
    (hread : Envelope.read version (wrapped version body) = .ok envelope) :
    IsFragment (Utf8.encode body) ∨ HasSecondChild (Document.read (wrapped version body)) := by
  obtain ⟨hfine, content, root, hspells, hroot, -⟩ := Envelope.exists_tree_of_read hread
  have hwhole := hspells
  rw [read_wrapped] at hfine hwhole
  -- What the text says, then what the closing says after it.
  obtain ⟨hends, final, hreads⟩ := Document.exists_reads hfine
  obtain ⟨first, hfirst, htokens⟩ := tokensWithin_append_closing hends
  have hwithin : Document.within (wrapper version)
      (Utf8.encode body ++ Utf8.encode Message.closing) = Document.ofTokens (wrapper version)
        ((tokensWithin (Utf8.encode body)).1 ++ [first, envelopeEnd]) none := by
    rw [Document.within, htokens]
  rw [htokens] at hreads
  obtain ⟨said, left, later, hsaid, htext, hclosing⟩ := Nesting.reads_append_iff.mp hreads
  cases hclosing with
  | @cons _ inner _ _ event _ _ hstep hclosing =>
  cases hclosing with
  | @cons _ _ _ _ last _ _ hlast hnil =>
  cases hnil
  obtain ⟨-, -, -, rfl⟩ := Nesting.step_endTag_eq_ok_iff.mp hlast
  rw [hwithin, hsaid] at hwhole
  -- The tree: nothing follows the envelope, and perhaps nothing the body.
  obtain ⟨held, more, rest, inside, middle, after, rfl, hheld, hmore, hrest, hevents⟩ :=
    spells_openingEvents hwhole
  obtain ⟨rfl, hafter⟩ : ⟨version.named "Envelope", .element (version.named "Body") held more⟩ =
      root ∧ rest.elements = [] := by
    simpa [Content.elements] using hroot
  have hends : (inside ++ .close :: middle) ++ .close :: after = (said ++ [event]) ++ [.close] := by
    simpa using hevents.symm
  obtain ⟨rfl, hbefore, -⟩ := last_of_leaves (hrest.exists_leaf hafter)
    (fun leaf => leaf.event_ne_close.symm) hends
  cases hmoreElements : more.elements with
  | cons second others =>
      have hchildren : (Content.element (version.named "Body") held more).elements =
          ⟨version.named "Body", held⟩ :: second :: others := by
        simp [Content.elements, hmoreElements]
      exact .inr ⟨_, _, _, second, others, hspells, hroot, hchildren⟩
  | nil =>
      obtain ⟨-, rfl, rfl⟩ := last_of_leaves (hmore.exists_leaf hmoreElements)
        (hfirst.event hstep) hbefore
      have hopen : openAfter? 0 inside = some 0 := hheld.openAfter?_eq 0
      obtain ⟨kept, -, -, rfl, -, hkept, -⟩ :=
        Nesting.Reads.elsewhere [] htext rfl hopen []
      rw [List.eq_nil_of_length_eq_zero hkept, List.nil_append] at hstep
      refine .inl ((isFragment_iff_within (wrapper version) _).mpr ?_)
      rw [Document.within, hfirst.eq_itself hstep, Document.ofTokens_of_reads htext]
      exact ⟨rfl, hopen⟩

/-- **What a message made from a text holds.**  The message is the text between the opening
and the closing, and it encloses the text exactly if the text is well nested on its own.
A text that is not has given the envelope a child beside the body that was opened for it. -/
theorem ofBody_encloses_iff {version : Version} {body : String} {message : Message}
    (haccept : Message.ofBody version body = .ok message) :
    message.content = wrapped version body ∧
      (Encloses version body ↔ IsFragment (Utf8.encode body)) ∧
      (¬ IsFragment (Utf8.encode body) → HasSecondChild (Document.read message.content)) := by
  obtain ⟨hread, -, hcontent, -⟩ := Message.ofBytes_eq_ok_iff.mp haccept
  have hwrapped : message.content = wrapped version body := hcontent
  refine ⟨hwrapped, ⟨Encloses.fragment, encloses_of_isFragment version⟩, ?_⟩
  rw [hwrapped]
  exact (isFragment_or_hasSecondChild hread).resolve_left

/-- A text that ends the body and begins another one is accepted. -/
theorem ofBody_encloses_iff_reopened :
    ∃ message, Message.ofBody .v1_2 "</env:Body><env:Body>" = .ok message ∧
      ¬ Encloses .v1_2 "</env:Body><env:Body>" ∧
      HasSecondChild (Document.read message.content) := by
  have hdocument : Document.read (wrapped .v1_2 "</env:Body><env:Body>") =
      ⟨openingEvents .v1_2 ++ [.close, .start (Version.named .v1_2 "Body"), .close, .close],
        none⟩ := by decide +kernel
  have hread : Envelope.read .v1_2 (wrapped .v1_2 "</env:Body><env:Body>") =
      .ok ⟨none, none⟩ := by
    rw [Envelope.read, hdocument]
    rfl
  obtain ⟨message, haccept, -⟩ := Message.exists_ofBytes hread
  have hbody : Message.ofBody .v1_2 "</env:Body><env:Body>" = .ok message := haccept
  have hnot : ¬ IsFragment (Utf8.encode "</env:Body><env:Body>") := by decide +kernel
  obtain ⟨-, hencloses, hsecond⟩ := ofBody_encloses_iff hbody
  exact ⟨message, hbody, fun h => hnot (hencloses.mp h), hsecond hnot⟩

end KerberosHttp.Soap
