import KerberosHttp.Proofs.Soap.Enclosure
import KerberosHttp.Proofs.Soap.Places
import KerberosHttp.Proofs.Xml.Cut

/-!
# Messages made from a fragment

A text that is well nested on its own can always be sent: the message made from it is
accepted, whatever elements, comments, sections and instructions the text holds, and however
deep they are.  Only a declaration of a document type is refused, and that in any text.

## Strategy

A fragment is enclosed in the body that is opened for it (`encloses_of_isFragment`), so the
tree of the whole document is known: an envelope with one body, and in it the tree of the
fragment.  Such a tree is accepted (`Envelope.exists_ofDocument`), and its operation is the
first element of the fragment (`Content.Spells.head?_elements`).

A declaration is complete with its last octet, so what follows the text in the message cannot
undo it (`DeclaresDoctype.append`).  Either the document is not well formed, or the pass
comes to the declaration (`doctype_mem_of_declares`).

## Main statement

* `ofBody_of_fragment`: every fragment that declares no document type is the content of a
  message, and no text that declares one is.
-/

namespace KerberosHttp

namespace Xml

/-- The first element that begins among some events. -/
def firstElement? (events : List Event) : Option ElementName :=
  events.findSome? Event.element?

/-- The first element of a content is the first that begins among its events. -/
theorem Content.Spells.head?_elements {content : Content} {events : List Event}
    (hspells : content.Spells events) :
    (content.elements.map (·.name)).head? = firstElement? events := by
  induction hspells with
  | nil => rfl
  | empty => rfl
  | element => rfl
  | @leaf leaf rest after _ ih =>
      calc ((Content.leaf leaf rest).elements.map (·.name)).head?
          = firstElement? after := ih
        _ = firstElement? (leaf.event :: after) := by cases leaf <;> rfl

/-! ## Declarations of a document type -/

/-- A declaration of a document type is complete in a text. -/
def DeclaresDoctype (content : Bytes) : Prop :=
  ∃ declared, Token.doctype declared ∈ (tokensWithin content).1

/-- Whatever follows a text leaves its declarations as they are. -/
theorem DeclaresDoctype.append {first : Bytes} (hdeclares : DeclaresDoctype first)
    (second : Bytes) : DeclaresDoctype (first ++ second) := by
  obtain ⟨declared, hmem⟩ := hdeclares
  obtain ⟨last, failure, hfirst, htexts⟩ := exists_tokensWithin first
  obtain ⟨last', failure', hwhole, -⟩ := exists_tokensWithin (first ++ second)
  rw [hfirst, List.mem_append] at hmem
  refine ⟨declared, ?_⟩
  rw [hwhole, Reading.feedAll_append]
  rcases hmem with hmem | hlast
  · exact List.mem_append_left _ (List.mem_append_left _ hmem)
  · obtain ⟨characters, htext⟩ := htexts _ hlast
    cases htext

theorem Nesting.Reads.doctype_mem {nesting final : Nesting} {tokens : List Token}
    {events : List Event} (hreads : nesting.Reads tokens events final) {declared : Bytes}
    (hmem : Token.doctype declared ∈ tokens) : Event.doctype ∈ events := by
  induction hreads with
  | nil => exact absurd hmem List.not_mem_nil
  | cons hstep _ ih =>
      rcases List.mem_cons.mp hmem with rfl | hrest
      · cases hstep
        exact List.mem_cons_self
      · exact List.mem_cons_of_mem _ (ih hrest)

/-- A text that is read to its end says all that it declares. -/
theorem doctype_mem_of_declares {nesting : Nesting} {content : Bytes}
    (hfine : (Document.within nesting content).failure = none)
    (hdeclares : DeclaresDoctype content) :
    .doctype ∈ (Document.within nesting content).events := by
  obtain ⟨-, final, hreads⟩ := Document.exists_reads hfine
  obtain ⟨declared, hmem⟩ := hdeclares
  exact hreads.doctype_mem hmem

end Xml

namespace Soap

open Xml

variable {version : Version} {body : String}

/-- What a text says in the body of a message made from it. -/
def said (version : Version) (body : String) : List Event :=
  (Document.within (wrapper version) (Utf8.encode body)).events

/-- A text that is well nested on its own, declares no document type, and holds no character
data that cannot be decoded. -/
structure IsPlainFragment (version : Version) (body : String) : Prop where
  nested : IsFragment (Utf8.encode body)
  plain : .doctype ∉ said version body
  readable : Decodes (said version body)

/-- The document of a message with a fragment is an envelope. -/
theorem exists_read_wrapped (hfragment : IsPlainFragment version body) :
    ∃ envelope, Envelope.read version (wrapped version body) = .ok envelope := by
  obtain ⟨inside, -, htree⟩ := (encloses_of_isFragment version hfragment.nested).tree
  have hdocument := read_wrapped_of_isFragment version hfragment.nested
  rw [hdocument] at htree
  have hplain : .doctype ∉ openingEvents version ++ said version body ++ [.close, .close] := by
    simp [openingEvents, hfragment.plain]
  have hreadable : Decodes (openingEvents version ++ said version body ++ [.close, .close]) := by
    have htags : Decodes (openingEvents version) ∧ Decodes [.close, .close] := by
      cases version <;> decide
    exact List.forall_mem_append.mpr
      ⟨List.forall_mem_append.mpr ⟨htags.1, hfragment.readable⟩, htags.2⟩
  rw [Envelope.read, hdocument]
  exact Envelope.exists_ofDocument htree hplain hreadable rfl ⟨rfl, rfl⟩ List.mem_cons_self
    ⟨rfl, rfl⟩

/-- What a message with a fragment says is told by the first element of the fragment. -/
theorem tells_of_read_wrapped (hnested : IsFragment (Utf8.encode body)) {envelope : Envelope}
    (hread : Envelope.read version (wrapped version body) = .ok envelope) :
    envelope.operation = (firstElement? (said version body)).map (·.localName) ∧
      envelope.fault.isSome = (firstElement? (said version body)).any fun name =>
        decide (IsNamed version "Fault" name) := by
  obtain ⟨inside, hinside, htree⟩ := (encloses_of_isFragment version hnested).tree
  rw [Envelope.read, read_wrapped_of_isFragment version hnested] at hread
  rw [read_wrapped_of_isFragment version hnested] at htree
  obtain ⟨root, hroot, -, -, hoperation, hfault⟩ := Envelope.tells_of_ofDocument hread htree
  obtain rfl : ⟨version.named "Envelope", .element (version.named "Body") inside .nil⟩ = root := by
    simpa [Content.elements] using hroot
  have hchildren : bodyChildren version (.element (version.named "Body") inside .nil) =
      inside.elements.map (·.name) := by
    have hbody : IsNamed version "Body" (version.named "Body") := ⟨rfl, rfl⟩
    rw [Scan.bodyChildren_element, if_pos hbody, Scan.bodyChildren_nil, List.append_nil]
  rw [hchildren, hinside.head?_elements] at hoperation hfault
  exact ⟨hoperation, hfault⟩

/-- In an envelope nothing declares a document type, and so nothing does in its body. -/
theorem not_declaresDoctype_of_read {envelope : Envelope}
    (hread : Envelope.read version (wrapped version body) = .ok envelope) :
    .doctype ∉ (Document.read (wrapped version body)).events ∧
      ¬ DeclaresDoctype (Utf8.encode body) := by
  obtain ⟨hfine, scan, hrun, -⟩ := Envelope.read_eq_ok_iff.mp hread
  have hplain := Scan.doctype_not_mem_of_run hrun
  refine ⟨hplain, ?_⟩
  intro hdeclares
  rw [read_wrapped] at hfine hplain
  apply hplain
  apply List.mem_append_right
  exact doctype_mem_of_declares hfine (hdeclares.append _)

/-- **A message can be made from every fragment.**  From a text that is well nested on its
own, declares no document type and holds no character data that cannot be decoded a message
is made: its content is the opening, the text as it stands, and the closing, its operation is
the local name of the first element of the text if there is one, and it is a fault exactly if
that element is named `Fault` in the name space of the version.  From a text that declares a
document type, whatever else it holds, none is made. -/
theorem ofBody_of_fragment (version : Version) (body : String) :
    (IsPlainFragment version body → ∃ message, Message.ofBody version body = .ok message ∧
      message.version = version ∧ message.mime = ∅ ∧
      message.content = Utf8.encode (Message.opening version) ++ Utf8.encode body ++
        Utf8.encode Message.closing ∧
      message.operation = (firstElement? (said version body)).map (·.localName) ∧
      (message.isFault = true ↔
        ∃ name, firstElement? (said version body) = some name ∧ IsNamed version "Fault" name)) ∧
    (.doctype ∈ (Document.read (wrapped version body)).events ∨
      DeclaresDoctype (Utf8.encode body) →
        ∃ error, Message.ofBody version body = .error error) := by
  constructor
  · intro hfragment
    obtain ⟨envelope, hread⟩ := exists_read_wrapped hfragment
    obtain ⟨message, hmessage, rfl⟩ := Message.exists_ofBytes hread
    obtain ⟨-, hversion, hcontent, hmime⟩ := Message.ofBytes_eq_ok_iff.mp hmessage
    obtain ⟨hoperation, hfault⟩ := tells_of_read_wrapped hfragment.nested hread
    refine ⟨message, hmessage, hversion, hmime, ?_, hoperation, ?_⟩
    · rw [hcontent, wrapped, Utf8.encode_append, Utf8.encode_append]
    · rw [Message.isFault, Message.fault, hfault, Option.any_eq_true]
      simp
  · intro hdeclares
    cases hmessage : Message.ofBody version body with
    | error error => exact ⟨error, rfl⟩
    | ok message =>
        obtain ⟨hread, -⟩ := Message.ofBytes_eq_ok_iff.mp hmessage
        obtain ⟨hplain, hnone⟩ := not_declaresDoctype_of_read hread
        rcases hdeclares with hmem | hdeclares
        · exact absurd hmem hplain
        · exact absurd hdeclares hnone

section FaultFragment

/-- A fault with a comment before it, and sections, an instruction and another element. -/
private def faultFragment : String :=
  "&lt;<!-- -- --><env:Fault><a b='>'/><![CDATA[</]]></env:Fault><?p?><c></c >"

theorem ofBody_of_fragment_fault :
    IsPlainFragment .v1_2 faultFragment ∧
      (∃ message, Message.ofBody .v1_2 faultFragment = .ok message ∧
        message.operation = some "Fault" ∧ message.isFault = true) ∧
      ∃ error, Message.ofBody .v1_2 "</env:Body><!DOCTYPE a><b" = .error error := by
  have hsaid : Document.within (wrapper .v1_2) (Utf8.encode faultFragment) =
      ⟨[.text (Bytes.ofAscii "&lt;"), .other, .start (Version.named .v1_2 "Fault"),
        .empty ⟨"a", none⟩, .cdata (Bytes.ofAscii "</"), .close, .other, .start ⟨"c", none⟩,
        .close], none⟩ := by decide +kernel
  have hnested : IsFragment (Utf8.encode faultFragment) := by
    rw [isFragment_iff_within (wrapper .v1_2), hsaid]
    decide
  have hfragment : IsPlainFragment .v1_2 faultFragment := by
    refine ⟨hnested, ?_, ?_⟩
    · rw [said, hsaid]
      decide
    · rw [said, hsaid]
      decide
  have hfirst : firstElement? (said .v1_2 faultFragment) = some (Version.named .v1_2 "Fault") := by
    rw [said, hsaid]
    rfl
  have hdeclares : DeclaresDoctype (Utf8.encode "</env:Body><!DOCTYPE a><b") :=
    ⟨Bytes.ofAscii " a", by decide +kernel⟩
  obtain ⟨message, hmessage, -, -, -, hoperation, hfault⟩ :=
    (ofBody_of_fragment .v1_2 faultFragment).1 hfragment
  rw [hfirst] at hoperation hfault
  refine ⟨hfragment, ⟨message, hmessage, hoperation, ?_⟩, ?_⟩
  · exact hfault.mpr ⟨_, rfl, rfl, rfl⟩
  · exact (ofBody_of_fragment .v1_2 "</env:Body><!DOCTYPE a><b").2 (.inr hdeclares)

end FaultFragment

end Soap

end KerberosHttp
