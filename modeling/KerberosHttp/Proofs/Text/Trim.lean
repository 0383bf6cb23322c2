import KerberosHttp.Text.Blank
import Mathlib.Data.List.TakeWhile

/-!
# Trimming

Trimming keeps every character that is not blank, and so a text trims to the same
as with more behind it exactly if all that is behind it is blank.  What is left of a
text is the one name in it that has blank characters around it and none at its own
ends (`trim_eq_iff`).
-/

namespace KerberosHttp.Text

/-- Whether a text has only blank characters. -/
def Blank (text : String) : Prop := ∀ c ∈ text.toList, isBlank c = true

instance (text : String) : Decidable (Blank text) :=
  List.decidableBAll (fun c => isBlank c = true) text.toList

theorem blank_append_iff {front back : String} :
    Blank (front ++ back) ↔ Blank front ∧ Blank back := by
  simp only [Blank, String.toList_append, List.forall_mem_append]

theorem blank_join_iff {texts : List String} :
    Blank (String.join texts) ↔ ∀ text ∈ texts, Blank text := by
  induction texts with
  | nil => simp [Blank]
  | cons text rest ih => rw [String.join_cons, blank_append_iff, ih, List.forall_mem_cons]

/-- How many characters are not blank. -/
def inkOf (chars : List Char) : Nat := chars.countP fun c => !isBlank c

theorem inkOf_dropWhile (chars : List Char) : inkOf (chars.dropWhile isBlank) = inkOf chars := by
  induction chars with
  | nil => rfl
  | cons c rest ih =>
      by_cases hblank : isBlank c = true
      · rw [List.dropWhile_cons_of_pos hblank, ih]
        simp [inkOf, hblank]
      · rw [List.dropWhile_cons_of_neg hblank]

theorem inkOf_reverse (chars : List Char) : inkOf chars.reverse = inkOf chars := by
  unfold inkOf
  exact List.countP_reverse

/-- Trimming keeps every character that is not blank. -/
theorem inkOf_trimChars (chars : List Char) : inkOf (trimChars chars) = inkOf chars := by
  calc inkOf (trimChars chars)
      = inkOf ((chars.dropWhile isBlank).reverse.dropWhile isBlank) := inkOf_reverse _
    _ = inkOf (chars.dropWhile isBlank).reverse := inkOf_dropWhile _
    _ = inkOf (chars.dropWhile isBlank) := inkOf_reverse _
    _ = inkOf chars := inkOf_dropWhile chars

theorem inkOf_eq_zero_iff {chars : List Char} :
    inkOf chars = 0 ↔ ∀ c ∈ chars, isBlank c = true := by
  unfold inkOf
  simp [List.countP_eq_zero]

theorem trimChars_append_of_blank {front back : List Char}
    (hblank : ∀ c ∈ back, isBlank c = true) : trimChars (front ++ back) = trimChars front := by
  have hback : back.dropWhile isBlank = [] := List.dropWhile_eq_nil_iff.mpr hblank
  have hreverse : back.reverse.dropWhile isBlank = [] :=
    List.dropWhile_eq_nil_iff.mpr fun c hmem => hblank c (List.mem_reverse.mp hmem)
  unfold trimChars
  rw [List.dropWhile_append]
  split
  · next hfront =>
      rw [List.isEmpty_iff] at hfront
      rw [hback, hfront]
  · rw [List.reverse_append, List.dropWhile_append, hreverse, List.isEmpty_nil, if_pos rfl]

theorem inkOf_append (front back : List Char) : inkOf (front ++ back) = inkOf front + inkOf back :=
  List.countP_append

/-- Texts that trim to the same have as many characters that are not blank. -/
theorem inkOf_eq_of_trim_eq {first second : String} (htrim : trim first = trim second) :
    inkOf first.toList = inkOf second.toList := by
  rw [trim, trim, String.ofList_inj] at htrim
  rw [← inkOf_trimChars first.toList, htrim, inkOf_trimChars]

theorem trim_append_eq_iff {front back : String} :
    trim (front ++ back) = trim front ↔ Blank back := by
  constructor
  · intro htrim
    have hink := inkOf_eq_of_trim_eq htrim
    rw [String.toList_append, inkOf_append] at hink
    exact inkOf_eq_zero_iff.mp (by omega)
  · intro hblank
    rw [trim, trim, String.toList_append, trimChars_append_of_blank hblank]

/-- A text that stands between others shows unless it is blank. -/
theorem blank_of_trim_insert {front text back : String}
    (htrim : trim (front ++ text ++ back) = trim (front ++ back)) : Blank text := by
  have hink := inkOf_eq_of_trim_eq htrim
  simp only [String.toList_append, inkOf_append] at hink
  exact inkOf_eq_zero_iff.mp (by omega)

/-! ## What trimming leaves -/

/-- Characters that neither begin nor end with a blank one. -/
structure Unpadded (chars : List Char) : Prop where
  first : ∀ c ∈ chars.head?, isBlank c = false
  last : ∀ c ∈ chars.getLast?, isBlank c = false

/-- A text has a name between blank characters, which themselves neither begin nor end the
name. -/
structure Trimmed (text name : String) : Prop where
  surrounded : ∃ front back, Blank front ∧ Blank back ∧ text = front ++ name ++ back
  unpadded : Unpadded name.toList

theorem isBlank_head_dropWhile {chars : List Char} {c : Char}
    (hhead : (chars.dropWhile isBlank).head? = some c) : isBlank c = false := by
  have hnot := List.head?_dropWhile_not isBlank chars
  rwa [hhead] at hnot

theorem unpadded_trimChars (chars : List Char) : Unpadded (trimChars chars) := by
  unfold trimChars
  generalize hdropped : chars.dropWhile isBlank = dropped
  constructor
  · intro c hc
    rw [List.head?_reverse] at hc
    have hsplit := List.takeWhile_append_dropWhile (p := isBlank) (l := dropped.reverse)
    have hfirst : dropped.head? = some c := by
      rw [← List.getLast?_reverse, ← hsplit, List.getLast?_append, hc, Option.some_or]
    exact isBlank_head_dropWhile (hdropped ▸ hfirst)
  · intro c hc
    rw [List.getLast?_reverse] at hc
    exact isBlank_head_dropWhile hc

theorem dropWhile_eq_of_head {chars : List Char} (hfirst : ∀ c ∈ chars.head?, isBlank c = false) :
    chars.dropWhile isBlank = chars := by
  cases chars with
  | nil => rfl
  | cons c rest => rw [List.dropWhile_cons_of_neg (by simp [hfirst c rfl])]

theorem Unpadded.trimChars_eq {chars : List Char} (hunpadded : Unpadded chars) :
    trimChars chars = chars := by
  have hlast : ∀ c ∈ chars.reverse.head?, isBlank c = false := by
    rw [List.head?_reverse]
    exact hunpadded.last
  rw [trimChars, dropWhile_eq_of_head hunpadded.first, dropWhile_eq_of_head hlast,
    List.reverse_reverse]

theorem trimChars_blank_append {front back : List Char}
    (hblank : ∀ c ∈ front, isBlank c = true) : trimChars (front ++ back) = trimChars back := by
  unfold trimChars
  rw [List.dropWhile_append_of_pos hblank]

theorem Trimmed.trim_eq {text name : String} (htrimmed : Trimmed text name) :
    trim text = name := by
  obtain ⟨⟨front, back, hfront, hback, rfl⟩, hunpadded⟩ := htrimmed
  rw [trim, String.toList_append, String.toList_append, trimChars_append_of_blank hback,
    trimChars_blank_append hfront, hunpadded.trimChars_eq, String.ofList_toList]

/-- There is nothing more to trim of what was trimmed. -/
theorem Trimmed.again {text name : String} (htrimmed : Trimmed text name) : Trimmed name name where
  surrounded := ⟨"", "", by decide, by decide, by simp⟩
  unpadded := htrimmed.unpadded

theorem trimmed_trim (text : String) : Trimmed text (trim text) := by
  have hends : ∀ chars : List Char, ∃ front, (∀ c ∈ front, isBlank c = true) ∧
      chars = front ++ chars.dropWhile isBlank :=
    fun chars => ⟨chars.takeWhile isBlank, fun c hc => List.mem_takeWhile_imp hc,
      List.takeWhile_append_dropWhile.symm⟩
  obtain ⟨front, hfront, htext⟩ := hends text.toList
  obtain ⟨back, hback, hdropped⟩ := hends (text.toList.dropWhile isBlank).reverse
  refine ⟨⟨String.ofList front, String.ofList back.reverse, ?_, ?_, ?_⟩, ?_⟩
  · rwa [Blank, String.toList_ofList]
  · intro c hc
    rw [String.toList_ofList, List.mem_reverse] at hc
    exact hback c hc
  · have hkept : text.toList.dropWhile isBlank = trimChars text.toList ++ back.reverse := by
      rw [trimChars, ← List.reverse_append, ← hdropped, List.reverse_reverse]
    rw [trim, ← String.ofList_append, ← String.ofList_append, List.append_assoc, ← hkept, ← htext,
      String.ofList_toList]
  · rw [trim, String.toList_ofList]
    exact unpadded_trimChars text.toList

/-- Trimming a text leaves the name that it has between blank characters. -/
theorem trim_eq_iff {text name : String} : trim text = name ↔ Trimmed text name :=
  ⟨fun htrim => htrim ▸ trimmed_trim text, Trimmed.trim_eq⟩

theorem trim_eq_empty_iff {text : String} : trim text = "" ↔ Blank text := by
  constructor
  · intro htrim
    have hempty : trim text = trim "" := htrim
    exact inkOf_eq_zero_iff.mp (inkOf_eq_of_trim_eq hempty)
  · intro hblank
    have htrim : trim ("" ++ text) = trim "" := trim_append_eq_iff.mpr hblank
    rwa [String.empty_append] at htrim

end KerberosHttp.Text
