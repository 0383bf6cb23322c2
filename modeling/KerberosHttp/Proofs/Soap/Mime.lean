import KerberosHttp.Proofs.Connection.Negotiation
import Mathlib.Algebra.GroupWithZero.Nat
import Mathlib.Data.List.Forall2

/-!
# MIME headers as a multimap

The headers of a message are a list of entries, and yet only the values of each name count: an
edit reads and changes the values of its own name and leaves everything else where it is.  So
the values that a name has in the end are told by the edits of that name alone, in whatever
spelling they were made.

## Strategy

Names agree if they do letter by letter (`Ascii.sameName_iff`), and all that an edit does to an
entry is decided by whether it agrees with the entry's name.  `values_edit` says what one edit
makes of the values of any name, and `values_editAll` follows by induction on the history.  What
an edit leaves alone is said of entries and not of values, so that their order and their
spelling are covered as well (`others_edit`).

The size is a sum over names, because taking a name away takes as many entries as it has values
(`size_eq_length_values_add`).  So one name after the other is taken away, until no entry is
left (`Represents.size_eq`).

## Main statement

* `MimeHeaders.multimap`: the headers after any history.
-/

namespace KerberosHttp

/-! ## Names in any case -/

namespace Ascii

/-- Two characters are the same, or one letter of A to Z in two cases. -/
inductive SameLetter : Char → Char → Prop
  | same (c : Char) : SameLetter c c
  | lowered {upper lower : Char} (hupper : upper.isUpper = true)
      (hlower : lower.toNat = upper.toNat + 32) : SameLetter upper lower
  | raised {upper lower : Char} (hupper : upper.isUpper = true)
      (hlower : lower.toNat = upper.toNat + 32) : SameLetter lower upper

theorem isUpper_iff {c : Char} : c.isUpper = true ↔ 65 ≤ c.toNat ∧ c.toNat ≤ 90 := by
  have hdecides : c.isUpper = decide (c.val ≥ 'A'.val ∧ c.val ≤ 'Z'.val) := rfl
  rw [hdecides, decide_eq_true_eq, ge_iff_le, UInt32.le_iff_toNat_le, UInt32.le_iff_toNat_le]
  rfl

theorem toNat_toLower (c : Char) :
    c.toLower.toNat = if c.isUpper = true then c.toNat + 32 else c.toNat := by
  unfold Char.toLower
  split
  · next hupper =>
      have hc : c.isUpper = true := decide_eq_true hupper
      have hle : c.val.toNat ≤ 90 := (isUpper_iff.mp hc).2
      rw [if_pos hc]
      calc (c.val + ('a'.val - 'A'.val)).toNat
          = (c.val.toNat + 32) % 2 ^ 32 := UInt32.toNat_add _ _
        _ = c.val.toNat + 32 := Nat.mod_eq_of_lt (by omega)
  · next hnot =>
      have hc : ¬ c.isUpper = true := fun hc => hnot (of_decide_eq_true hc)
      rw [if_neg hc]

theorem toLower_eq_iff {c d : Char} : c.toLower = d.toLower ↔ SameLetter c d := by
  have hnot : ∀ {upper lower : Char}, upper.isUpper = true → lower.toNat = upper.toNat + 32 →
      ¬ lower.isUpper = true := by
    intro upper lower hupper hlower hboth
    rw [isUpper_iff] at hupper hboth
    omega
  rw [← Char.toNat_inj, toNat_toLower, toNat_toLower]
  constructor
  · intro hlower
    split_ifs at hlower with hc hd hd
    · obtain rfl : c = d := Char.toNat_inj.mp (Nat.add_right_cancel hlower)
      exact .same c
    · exact .lowered hc hlower.symm
    · exact .raised hd hlower
    · obtain rfl : c = d := Char.toNat_inj.mp hlower
      exact .same c
  · intro hsame
    cases hsame with
    | same => rfl
    | lowered hupper hlower => rw [if_pos hupper, if_neg (hnot hupper hlower), hlower]
    | raised hupper hlower => rw [if_pos hupper, if_neg (hnot hupper hlower), hlower]

/-- Names agree exactly if they do letter by letter. -/
theorem sameName_iff {first second : String} :
    SameName first second ↔ List.Forall₂ SameLetter first.toList second.toList := by
  simp only [SameName, lowercase, String.ofList_inj, ← List.forall₂_eq_eq_eq,
    List.forall₂_map_left_iff, List.forall₂_map_right_iff, toLower_eq_iff]

end Ascii

namespace Soap

/-! ## Edits -/

namespace MimeEdit

/-- The name that is edited. -/
def name : MimeEdit → String
  | add name _ => name
  | set name _ => name
  | remove name => name

/-- What an edit makes of the values of its name. -/
def revise (values : List String) : MimeEdit → List String
  | add _ value => values ++ [value]
  | set _ value => [value]
  | remove _ => []

/-- The values that a history leaves of a name, by the edits of that name alone. -/
def valuesAfter (edits : List MimeEdit) (name : String) : List String :=
  (edits.filter fun edit => Ascii.SameName edit.name name).foldl revise []

end MimeEdit

namespace MimeHeaders

open Ascii

variable {headers : MimeHeaders} {name other : String}

/-! ## One name -/

theorem sameName_congr (hsame : SameName name other) (entry : MimeHeader) :
    SameName entry.name name ↔ SameName entry.name other :=
  ⟨fun h => h.trans hsame, fun h => h.trans hsame.symm⟩

/-- A name has its values in any spelling. -/
theorem values_congr (hsame : Ascii.SameName name other) :
    headers.values name = headers.values other := by
  unfold values
  simp only [sameName_congr hsame]

theorem remove_congr (hsame : SameName name other) :
    headers.remove name = headers.remove other := by
  unfold remove
  simp only [sameName_congr hsame]

theorem values_add (value : String) :
    (headers.add name value).values other =
      if SameName name other then headers.values other ++ [value] else headers.values other := by
  unfold values add
  rw [List.filter_append, List.map_append, List.filter_singleton]
  by_cases hsame : SameName name other <;> simp [hsame]

theorem values_remove :
    (headers.remove name).values other =
      if SameName name other then [] else headers.values other := by
  unfold values remove
  rw [List.filter_filter]
  by_cases hsame : SameName name other
  · simp [hsame, sameName_congr hsame]
  · rw [if_neg hsame]
    congr 1
    refine List.filter_congr fun entry _ => ?_
    by_cases hother : SameName entry.name other
    · have hname : ¬ SameName entry.name name := fun hname => hsame (hname.symm.trans hother)
      simp [hother, hname]
    · simp [hother]

theorem values_set (value : String) :
    (headers.set name value).values other =
      if SameName name other then [value] else headers.values other := by
  unfold set
  rw [values_add, values_remove]
  by_cases hsame : SameName name other <;> simp [hsame]

/-- An edit revises the values of its name, however that is spelled, and of no other. -/
theorem values_edit (edit : MimeEdit) :
    (headers.edit edit).values name =
      if SameName edit.name name then edit.revise (headers.values name)
      else headers.values name := by
  cases edit with
  | add other value => exact values_add value
  | set other value => exact values_set value
  | remove other => exact values_remove

theorem values_editAll (edits : List MimeEdit) :
    (headers.editAll edits).values name =
      (edits.filter fun edit => SameName edit.name name).foldl MimeEdit.revise
        (headers.values name) := by
  induction edits generalizing headers with
  | nil => rfl
  | cons edit rest ih =>
      calc (headers.editAll (edit :: rest)).values name
          = ((headers.edit edit).editAll rest).values name := rfl
        _ = _ := by
          rw [ih, values_edit, List.filter_cons]
          by_cases hsame : SameName edit.name name <;> simp [hsame]

/-! ## Other names -/

/-- The entries of all names but one, as they stand. -/
def others (headers : MimeHeaders) (name : String) : List MimeHeader :=
  headers.entries.filter fun entry => ¬ SameName entry.name name

/-- An edit leaves the entries of other names alone, in their order and their spelling. -/
theorem others_edit (edit : MimeEdit) :
    (headers.edit edit).others edit.name = headers.others edit.name := by
  have hadd : ∀ (headers : MimeHeaders) (name value : String),
      (headers.add name value).others name = headers.others name := by
    intro headers name value
    unfold others add
    rw [List.filter_append]
    simp [sameName_refl]
  have hremove : ∀ (headers : MimeHeaders) (name : String),
      (headers.remove name).others name = headers.others name := by
    intro headers name
    unfold others remove
    rw [List.filter_filter]
    simp
  cases edit with
  | add name value => exact hadd headers name value
  | set name value => exact (hadd (headers.remove name) name value).trans (hremove headers name)
  | remove name => exact hremove headers name

/-! ## Size -/

theorem size_eq_length_values_add (name : String) :
    headers.size = (headers.values name).length + (headers.remove name).size := by
  unfold size values remove
  rw [List.length_map, List.length_eq_length_filter_add fun entry : MimeHeader =>
    decide (SameName entry.name name)]
  simp

/-- Some names, no two of which agree, are the names of all entries. -/
structure Represents (names : List String) (headers : MimeHeaders) : Prop where
  distinct : names.Pairwise fun first second => ¬ SameName first second
  complete : ∀ entry ∈ headers.entries, ∃ name ∈ names, SameName name entry.name

theorem exists_represents (headers : MimeHeaders) : ∃ names, Represents names headers := by
  obtain ⟨entries⟩ := headers
  induction entries with
  | nil => exact ⟨[], .nil, by simp⟩
  | cons entry rest ih =>
      obtain ⟨names, hdistinct, hcomplete⟩ := ih
      by_cases hknown : ∃ name ∈ names, SameName name entry.name
      · exact ⟨names, hdistinct, List.forall_mem_cons.mpr ⟨hknown, hcomplete⟩⟩
      · refine ⟨entry.name :: names, hdistinct.cons ?_, List.forall_mem_cons.mpr ⟨?_, ?_⟩⟩
        · exact fun name hmem hsame => hknown ⟨name, hmem, hsame.symm⟩
        · exact ⟨entry.name, List.mem_cons_self, rfl⟩
        · intro other hother
          obtain ⟨name, hmem, hsame⟩ := hcomplete other hother
          exact ⟨name, List.mem_cons_of_mem _ hmem, hsame⟩

/-- Without one of its names, the others are the names of the rest. -/
theorem Represents.remove {names : List String} (hnames : Represents (name :: names) headers) :
    Represents names (headers.remove name) where
  distinct := (List.pairwise_cons.mp hnames.distinct).2
  complete := by
    intro entry hentry
    obtain ⟨hmem, hother⟩ := List.mem_filter.mp hentry
    obtain ⟨found, hfound, hsame⟩ := hnames.complete entry hmem
    rcases List.mem_cons.mp hfound with rfl | hfound
    · exact absurd hsame.symm (of_decide_eq_true hother)
    · exact ⟨found, hfound, hsame⟩

/-- The size is the sum of the values over the names. -/
theorem Represents.size_eq {names : List String} (hnames : Represents names headers) :
    headers.size = (names.map fun name => (headers.values name).length).sum := by
  induction names generalizing headers with
  | nil =>
      have hnone : headers.entries = [] := by
        rw [List.eq_nil_iff_forall_not_mem]
        intro entry hentry
        obtain ⟨name, hmem, -⟩ := hnames.complete entry hentry
        exact List.not_mem_nil hmem
      exact congrArg List.length hnone
  | cons name names ih =>
      have hvalues : ∀ other ∈ names, (headers.remove name).values other = headers.values other := by
        intro other hmem
        rw [values_remove, if_neg ((List.pairwise_cons.mp hnames.distinct).1 other hmem)]
      rw [size_eq_length_values_add name, ih hnames.remove, List.map_cons, List.sum_cons,
        List.map_congr_left fun other hmem => congrArg List.length (hvalues other hmem)]

/-! ## Duplicates -/

/-- A name has at most one value for as long as none is added to it. -/
theorem length_values_editAll_le {edits : List MimeEdit} (hfew : (headers.values name).length ≤ 1)
    (hnone : ∀ other value, .add other value ∈ edits → ¬ SameName other name) :
    ((headers.editAll edits).values name).length ≤ 1 := by
  induction edits generalizing headers with
  | nil => exact hfew
  | cons edit rest ih =>
      have hfewer : ((headers.edit edit).values name).length ≤ 1 := by
        rw [values_edit]
        split
        · next hsame =>
            cases edit with
            | add other value => exact absurd hsame (hnone other value List.mem_cons_self)
            | set other value => exact Nat.le_refl 1
            | remove other => exact Nat.zero_le 1
        · exact hfew
      exact ih hfewer fun other value hmem => hnone other value (List.mem_cons_of_mem _ hmem)

/-- A refusal of headers that names a name as a duplicate. -/
inductive ReportsDuplicate (name : String) : Except Violation CallHeaders → Prop
  | contentType (hname : SameName name "Content-Type") (text : String) :
      ReportsDuplicate name (.error ⟨.duplicateContentType, text⟩)
  | soapAction (hname : SameName name "SOAPAction") (text : String) :
      ReportsDuplicate name (.error ⟨.duplicateSoapAction, text⟩)

theorem two_le_of_reportsDuplicate
    (hreports : ReportsDuplicate name (CallHeaders.ofMime headers)) :
    2 ≤ (headers.values name).length := by
  cases hresult : CallHeaders.ofMime headers with
  | ok sent => rw [hresult] at hreports; cases hreports
  | error violation =>
      have hnegotiates := CallHeaders.error_iff_negotiates.mp hresult
      rw [hresult] at hreports
      cases hreports with
      | contentType hname text =>
          rw [values_congr hname]
          cases hnegotiates with
          | duplicateContentType hmany => exact hmany
      | soapAction hname text =>
          rw [values_congr hname]
          cases hnegotiates with
          | duplicateSoapAction htypes hmany => exact hmany

/-! ## The whole -/

/-- What holds of headers with a history. -/
structure Multimap (headers : MimeHeaders) (edits : List MimeEdit) : Prop where
  /-- A name has the values that its own edits left it. -/
  values : ∀ name, headers.values name = MimeEdit.valuesAfter edits name
  /-- Names agree letter by letter, but for the case of A to Z. -/
  spelling : ∀ first second, SameName first second ↔
    List.Forall₂ SameLetter first.toList second.toList
  anySpelling : ∀ name other, SameName name other → headers.values name = headers.values other
  elsewhere : ∀ (edit : MimeEdit) (name : String), ¬ SameName edit.name name →
    (headers.edit edit).values name = headers.values name
  /-- The next edit leaves the entries of other names in their order and their spelling. -/
  others : ∀ edit : MimeEdit,
    (headers.edit edit).entries.filter (fun entry => ¬ SameName entry.name edit.name) =
      headers.entries.filter fun entry => ¬ SameName entry.name edit.name
  size : (∃ names, Represents names headers) ∧ ∀ names, Represents names headers →
    headers.size = (names.map fun name => (headers.values name).length).sum
  removed : ∀ name other, SameName name other →
    (headers.remove name).values other = [] ∧
      (headers.remove name).remove other = headers.remove name
  replaced : ∀ name other value, SameName name other →
    (headers.set name value).values other = [value]
  /-- A name that was set and not added to since has no duplicate. -/
  single : ∀ earlier name value later, edits = earlier ++ .set name value :: later →
    (∀ other added, .add other added ∈ later → ¬ SameName other name) →
    (headers.values name).length ≤ 1 ∧ ¬ ReportsDuplicate name (CallHeaders.ofMime headers)

/-- **MIME headers are a multimap by names in any case.**  After any edits of empty headers,
the values of a name are what the edits of that name make of none, one after the other; no edit
moves or changes what stands under another name; and the size counts the values of all names.
A name that was set has one value at most until it is added to, and so no call is refused for
its being there twice. -/
theorem multimap (edits : List MimeEdit) : Multimap ((∅ : MimeHeaders).editAll edits) edits where
  values name := values_editAll edits
  spelling first second := sameName_iff
  anySpelling name other hsame := values_congr hsame
  elsewhere edit name hother := by rw [values_edit, if_neg hother]
  others edit := others_edit edit
  size := ⟨exists_represents _, fun names hnames => hnames.size_eq⟩
  removed name other hsame := by
    refine ⟨by rw [values_remove, if_pos hsame], ?_⟩
    rw [← remove_congr hsame]
    unfold remove
    rw [List.filter_filter]
    simp only [Bool.and_self]
  replaced name other value hsame := by rw [values_set, if_pos hsame]
  single := by
    rintro earlier name value later rfl hnone
    have hfew : (((∅ : MimeHeaders).editAll (earlier ++ .set name value :: later)).values
        name).length ≤ 1 := by
      unfold editAll
      rw [List.foldl_append, List.foldl_cons]
      refine length_values_editAll_le ?_ hnone
      rw [MimeHeaders.edit, values_set, if_pos (sameName_refl name)]
      exact Nat.le_refl 1
    refine ⟨hfew, fun hreports => ?_⟩
    have hmany := two_le_of_reportsDuplicate hreports
    omega

/-- A value in one spelling replaces those of two others. -/
example : ((∅ : MimeHeaders).editAll [.add "content-type" "a", .add "X-Trace" "1",
    .add "Content-Type" "b", .set "CONTENT-TYPE" "c"]).entries =
      [⟨"X-Trace", "1"⟩, ⟨"CONTENT-TYPE", "c"⟩] := by
  decide +kernel

end MimeHeaders

end Soap

end KerberosHttp
