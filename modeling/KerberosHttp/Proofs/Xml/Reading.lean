import KerberosHttp.Proofs.Xml.Reads

/-!
# What the reader is in the middle of

Facts about `Reading`, the state of the reader between two octets, that do not depend
on what has been read:

* what one octet does, in whatever state (`Reading.feed_cases`);
* a quote that is open in a tag is one of the two marks (`Reading.quoted_feedAll`);
* an end tag is complete with its last octet (`Reading.of_feed_endTag`);
* only among characters may a text end (`Reading.exists_text_of_finish`);
* the mark is skipped alike whatever follows, unless a text is cut within it
  (`skipMark_append`).
-/

namespace KerberosHttp.Xml

namespace Reading

/-- What an octet does that is not read as one of a tag: it leaves no quote open, and it
completes characters, or markup of which it is the last. -/
structure Plain (octet : UInt8) (next : Reading) (completed : Option Token) : Prop where
  unquoted : ∀ closing mark seen, next ≠ .tag closing (some mark) seen
  completes : completed = none ∨ (∃ content, completed = some (.text content)) ∨
    octet = '>'.toUInt8 ∧ next = .text []

theorem Plain.of_none {octet : UInt8} {other next : Reading} {completed : Option Token}
    (hsame : (other, none) = (next, completed))
    (hother : ∀ closing mark seen, other ≠ .tag closing (some mark) seen) :
    Plain octet next completed := by
  obtain ⟨rfl, rfl⟩ := Prod.mk.inj hsame
  exact ⟨hother, .inl rfl⟩

/-- Where a construct may end, it ends, or the text is no XML, or it goes on. -/
theorem Plain.of_afterToken {octet : UInt8} {next : Reading} {completed : Option Token}
    (result : Option (Except Error Token)) (other : Reading) (hends : octet = '>'.toUInt8)
    (hsame : (result.map afterToken).getD (other, none) = (next, completed))
    (hother : ∀ closing mark seen, other ≠ .tag closing (some mark) seen) :
    Plain octet next completed := by
  match result with
  | none => exact .of_none hsame hother
  | some (.error error) => exact .of_none hsame (by simp)
  | some (.ok token) =>
      obtain ⟨rfl, rfl⟩ := Prod.mk.inj hsame
      exact ⟨by simp, .inr (.inr ⟨hends, rfl⟩)⟩

/-- An octet is read as one of a tag, or it is a plain one. -/
theorem feed_cases {state next : Reading} {octet : UInt8} {completed : Option Token}
    (hfeed : state.feed octet = (next, completed)) :
    (∃ closing quote seen, (quote = none ∨ state = .tag closing quote seen) ∧
        feedTag closing quote seen octet = (next, completed)) ∨ Plain octet next completed := by
  cases state with
  | text seen =>
      rw [feed] at hfeed
      refine .inr ?_
      split at hfeed
      · obtain ⟨rfl, rfl⟩ := Prod.mk.inj hfeed
        refine ⟨by simp, ?_⟩
        split
        · exact .inl rfl
        · exact .inr (.inl ⟨_, rfl⟩)
      · exact .of_none hfeed (by simp)
  | opened =>
      rw [feed] at hfeed
      split at hfeed
      · exact .inr (.of_none hfeed (by simp))
      · split at hfeed
        · exact .inr (.of_none hfeed (by simp))
        · split at hfeed
          · exact .inr (.of_none hfeed (by simp))
          · exact .inl ⟨false, none, [], .inl rfl, hfeed⟩
  | tag closing quote seen => exact .inl ⟨closing, quote, seen, .inr rfl, hfeed⟩
  | declaration =>
      rw [feed] at hfeed
      refine .inr ?_
      split at hfeed
      · exact .of_none hfeed (by simp)
      · split at hfeed
        · exact .of_none hfeed (by simp)
        · split at hfeed
          · exact .of_none hfeed (by simp)
          · exact .of_none hfeed (by simp)
  | comment seen =>
      rw [feed] at hfeed
      refine .inr ?_
      split at hfeed
      · next hends => exact .of_afterToken _ _ hends hfeed (by simp)
      · exact .of_none hfeed (by simp)
  | cdata seen =>
      rw [feed] at hfeed
      refine .inr ?_
      split at hfeed
      · next hends => exact .of_afterToken _ _ hends hfeed (by simp)
      · exact .of_none hfeed (by simp)
  | doctype depth seen =>
      simp only [feed] at hfeed
      refine .inr ?_
      split at hfeed
      · exact .of_none hfeed (by simp)
      · split at hfeed
        · next hends =>
            cases depth with
            | zero =>
                exact .of_afterToken (some (Token.ofDoctype seen)) (.text []) hends hfeed (by simp)
            | succ depth => exact .of_none hfeed (by simp)
        · exact .of_none hfeed (by simp)
  | instruction seen =>
      rw [feed] at hfeed
      refine .inr ?_
      split at hfeed
      · next hends => exact .of_afterToken _ _ hends hfeed (by simp)
      · exact .of_none hfeed (by simp)
  | failed error => exact .inr (.of_none hfeed (by simp))

/-- A quote that is open is one of the two marks. -/
def Quoted : Reading → Prop
  | tag _ (some mark) _ => mark = '"'.toUInt8 ∨ mark = '\''.toUInt8
  | _ => True

theorem quoted_feedTag (closing : Bool) {quote : Option UInt8} {seen : Bytes}
    (hquoted : (tag closing quote seen).Quoted) (octet : UInt8) :
    (feedTag closing quote seen octet).1.Quoted := by
  unfold feedTag
  split
  · next mark =>
      by_cases hends : octet = mark
      · simp [hends, Quoted]
      · simpa [hends, Quoted] using hquoted
  · split
    · exact trivial
    · split
      · next hmark => exact hmark
      · exact trivial

theorem quoted_feed {state : Reading} (hquoted : state.Quoted) (octet : UInt8) :
    (state.feed octet).1.Quoted := by
  rcases hfeed : state.feed octet with ⟨next, token⟩
  rcases feed_cases hfeed with ⟨closing, quote, seen, hstate, htag⟩ | hplain
  · have hbefore : (tag closing quote seen).Quoted := by
      rcases hstate with rfl | rfl
      · exact trivial
      · exact hquoted
    have hafter := quoted_feedTag closing hbefore octet
    rwa [htag] at hafter
  · cases next with
    | tag closing quote seen =>
        cases quote with
        | none => exact trivial
        | some mark => exact absurd rfl (hplain.unquoted closing mark seen)
    | _ => exact trivial

theorem quoted_feedAll {state : Reading} (hquoted : state.Quoted) (content : Bytes) :
    (state.feedAll content).2.Quoted := by
  induction content generalizing state with
  | nil => exact hquoted
  | cons octet rest ih => exact ih (quoted_feed hquoted octet)

/-- An end tag is complete with its last octet, and nothing is left of it. -/
theorem of_feed_endTag {state next : Reading} {octet : UInt8} {content : Bytes}
    (hfeed : state.feed octet = (next, some (.endTag content))) :
    octet = '>'.toUInt8 ∧ next = .text [] := by
  rcases feed_cases hfeed with ⟨closing, quote, seen, -, htag⟩ | hplain
  · unfold feedTag at htag
    split at htag
    · cases htag
    · split at htag
      · next hends => exact ⟨hends, (Prod.mk.inj htag).1.symm⟩
      · split at htag <;> cases htag
  · rcases hplain.completes with hnone | ⟨characters, htext⟩ | hends
    · cases hnone
    · cases htext
    · exact hends

theorem exists_text_of_finish {state : Reading} {last : Option Token}
    (hfinish : state.finish = .ok last) : ∃ seen, state = .text seen := by
  cases state with
  | text seen => exact ⟨seen, rfl⟩
  | _ => cases hfinish

end Reading

/-- A name in an end tag is all that stands there, unless white space follows it. -/
theorem endName_append (front : Bytes) {last : UInt8} (hlast : isSpace last = false) :
    endName (front ++ [last]) = front ++ [last] := by
  have hreverse : (front ++ [last]).reverse.dropWhile isSpace = (front ++ [last]).reverse := by
    simp [hlast]
  unfold endName
  rw [hreverse]
  split
  · next hnil => simp at hnil
  · exact List.reverse_reverse _

/-! ## The mark -/

theorem skipMark_of_head? {content : Bytes} (hhead : content.head? ≠ some 0xEF) :
    skipMark content = content := by
  cases content with
  | nil => rfl
  | cons octet rest =>
      have hother : ¬ (0xEF : UInt8) = octet := fun hsame => hhead (by rw [hsame]; rfl)
      simp [skipMark, Bytes.dropStart?, byteOrderMark, List.isPrefixOf, hother]

/-- Only a cut within the mark changes what follows the mark. -/
theorem skipMark_append (first second : Bytes) :
    skipMark (first ++ second) = skipMark first ++ second ∨
      first.length < byteOrderMark.length ∧ byteOrderMark <+: first ++ second := by
  by_cases hmark : byteOrderMark <+: first ++ second
  · by_cases hshort : first.length < byteOrderMark.length
    · exact .inr ⟨hshort, hmark⟩
    · have hfirst : byteOrderMark <+: first :=
        List.prefix_of_prefix_length_le hmark (List.prefix_append _ _) (by omega)
      obtain ⟨rest, rfl⟩ := hfirst
      refine .inl ?_
      simp [skipMark, Bytes.dropStart?, byteOrderMark, List.isPrefixOf]
  · have hwhole : byteOrderMark.isPrefixOf (first ++ second) = false :=
      Bool.eq_false_iff.mpr fun hin => hmark (List.isPrefixOf_iff_prefix.mp hin)
    have hfirst : byteOrderMark.isPrefixOf first = false := by
      refine Bool.eq_false_iff.mpr fun hin => hmark ?_
      exact (List.isPrefixOf_iff_prefix.mp hin).trans (List.prefix_append _ _)
    exact .inl (by simp [skipMark, Bytes.dropStart?, hwhole, hfirst])

end KerberosHttp.Xml
