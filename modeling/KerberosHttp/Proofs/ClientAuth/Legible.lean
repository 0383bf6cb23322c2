import KerberosHttp.Proofs.ClientAuth.Reading

/-!
# Members that settings can be read of

The members of an object are read from the first to the last, but whether they can be read, and
what they say, does not depend on the order.

## Strategy

The reading stops at the first member that cannot be read after those before it.  So all are read
exactly if none is wrong in itself and no two are of one field (`Legible`), an induction on the
members for any fields seen before (`ofMembers_eq_ok_iff`).  Of legible members a field has one at
most, and that one says the field's text (`SettingsField.textIn_of_mem`), wherever it stands.

## Main statements

* `SettingsField.textIn_perm`: what members say of a field does not depend on their order.
* `Settings.read_eq_ok_iff`: settings are read of an object exactly if its members are legible,
  and which settings these are.
-/

namespace KerberosHttp

open Json

namespace SettingsFields

open SettingsField (of? take)

/-- A value is one that a field may have: a string, or null in place of a user name or a
password. -/
inductive Suits : SettingsField → Value → Prop
  | string {field : SettingsField} {units : List StringUnit} {text : String}
      (htext : StringUnit.text? units = some text) : Suits field (.string units)
  | null {field : SettingsField} (hfield : field ≠ .loginModule) : Suits field .null

/-- Members of which settings can be read. -/
structure Legible (members : Members) : Prop where
  /-- Every name spells a text. -/
  named : ∀ member ∈ members, (StringUnit.text? member.1).isSome = true
  /-- No field has two members. -/
  once : (members.filterMap of?).Nodup
  suited : ∀ member ∈ members, ∀ field, of? member = some field → Suits field member.2

/-- The fields that members are of, with the texts of their values. -/
def said (members : Members) : SettingsFields :=
  members.filterMap fun member => (of? member).map fun field => (field, member.2.text?)

theorem map_said (members : Members) : (said members).map (·.1) = members.filterMap of? := by
  unfold said
  rw [List.map_filterMap]
  congr 1
  funext member
  cases of? member <;> rfl

theorem take_eq_ok_iff {field : SettingsField} {value : Value} {text : Option String} :
    take field value = .ok text ↔ Suits field value ∧ text = value.text? := by
  constructor
  · intro htake
    cases value with
    | string units =>
        rw [take] at htake
        cases htext : StringUnit.text? units with
        | none => simp [htext] at htake
        | some found =>
            simp only [htext, Except.ok.injEq] at htake
            exact ⟨.string htext, htake ▸ htext.symm⟩
    | null =>
        rw [take] at htake
        by_cases hfield : field = .loginModule
        · simp [hfield] at htake
        · simp only [if_neg hfield, Except.ok.injEq] at htake
          exact ⟨.null hfield, htake.symm⟩
    | number text => simp [take] at htake
    | boolean value => simp [take] at htake
    | array elements => simp [take] at htake
    | object members => simp [take] at htake
  · rintro ⟨hsuits, rfl⟩
    cases hsuits with
    | string htext => simp [take, Value.text?, htext]
    | null hfield => exact if_neg hfield

theorem ofMember_eq_ok_iff {seen : List SettingsField} {member : List StringUnit × Value}
    {added : SettingsFields} :
    ofMember seen member = .ok added ↔
      ((StringUnit.text? member.1).isSome = true ∧
        ∀ field, of? member = some field → field ∉ seen ∧ Suits field member.2) ∧
      added = said [member] := by
  unfold ofMember said of?
  cases hname : StringUnit.text? member.1 with
  | none => simp [hname]
  | some name =>
      cases hfield : SettingsField.ofName? name with
      | none => simp [hname, hfield, eq_comm]
      | some field =>
          by_cases hseen : field ∈ seen
          · simp [hname, hfield, hseen]
          · cases htake : take field member.2 with
            | error error =>
                have hsuits : ¬ Suits field member.2 := by
                  intro hsuits
                  rw [take_eq_ok_iff.mpr ⟨hsuits, rfl⟩] at htake
                  cases htake
                simp [hname, hfield, hseen, htake, hsuits, Except.map]
            | ok text =>
                obtain ⟨hsuits, rfl⟩ := take_eq_ok_iff.mp htake
                simp [hname, hfield, hseen, htake, hsuits, Except.map, eq_comm]

theorem fields_cons {member : List StringUnit × Value} {others : Members} :
    (member :: others).filterMap of? = (of? member).toList ++ others.filterMap of? := by
  rw [List.filterMap_cons]
  cases of? member <;> rfl

theorem legible_cons_iff {member : List StringUnit × Value} {others : Members} :
    Legible (member :: others) ↔
      ((StringUnit.text? member.1).isSome = true ∧
        ∀ field, of? member = some field → field ∉ others.filterMap of? ∧ Suits field member.2) ∧
      Legible others := by
  constructor
  · rintro ⟨hnamed, honce, hsuited⟩
    obtain ⟨hname, hnamed⟩ := List.forall_mem_cons.mp hnamed
    obtain ⟨hsuits, hsuited⟩ := List.forall_mem_cons.mp hsuited
    rw [fields_cons] at honce
    refine ⟨⟨hname, fun field hfield => ⟨?_, hsuits field hfield⟩⟩,
      hnamed, (List.nodup_append.mp honce).2.1, hsuited⟩
    intro hmem
    exact (List.nodup_append.mp honce).2.2 field (Option.mem_toList.mpr hfield) field hmem rfl
  · rintro ⟨⟨hname, hfirst⟩, hnamed, honce, hsuited⟩
    refine ⟨List.forall_mem_cons.mpr ⟨hname, hnamed⟩, ?_,
      List.forall_mem_cons.mpr ⟨fun field hfield => (hfirst field hfield).2, hsuited⟩⟩
    rw [fields_cons]
    refine List.nodup_append.mpr ⟨by cases of? member <;> simp, honce, ?_⟩
    rintro field hfield _ hmem rfl
    exact (hfirst field (Option.mem_toList.mp hfield)).1 hmem

theorem ofMembers_cons_eq_ok_iff {seen : List SettingsField} {member : List StringUnit × Value}
    {others : Members} {added : SettingsFields} :
    ofMembers seen (member :: others) = .ok added ↔
      ∃ first later, ofMember seen member = .ok first ∧
        ofMembers (seen ++ first.map (·.1)) others = .ok later ∧ added = first ++ later := by
  rw [ofMembers]
  cases ofMember seen member with
  | error error => simp [bind, Except.bind]
  | ok first =>
      cases hlater : ofMembers (seen ++ first.map (·.1)) others with
      | error error => simp [bind, Except.bind, hlater]
      | ok later => simp [bind, Except.bind, pure, Except.pure, hlater, eq_comm]

theorem said_cons (member : List StringUnit × Value) (others : Members) :
    said (member :: others) = said [member] ++ said others := by
  unfold said
  rw [← List.filterMap_append, List.singleton_append]

/-- Members are read exactly if they are legible and none is of a field that was seen. -/
theorem ofMembers_eq_ok_iff {seen : List SettingsField} {members : Members}
    {added : SettingsFields} :
    ofMembers seen members = .ok added ↔
      Legible members ∧ (∀ field ∈ members.filterMap of?, field ∉ seen) ∧
        added = said members := by
  induction members generalizing seen added with
  | nil =>
      have hnil : Legible [] := ⟨List.forall_mem_nil _, List.nodup_nil, List.forall_mem_nil _⟩
      simp [ofMembers, hnil, said, eq_comm]
  | cons member others ih =>
      have hfields : (said [member]).map (·.1) = (of? member).toList := by
        rw [map_said, fields_cons, List.filterMap_nil, List.append_nil]
      rw [said_cons member others]
      simp only [ofMembers_cons_eq_ok_iff, ofMember_eq_ok_iff, ih, legible_cons_iff, fields_cons,
        List.mem_append, Option.mem_toList]
      constructor
      · rintro ⟨_, _, ⟨⟨hname, hfirst⟩, rfl⟩, ⟨hlegible, hlater, rfl⟩, rfl⟩
        rw [hfields] at hlater
        refine ⟨⟨⟨hname, fun field hfield => ⟨fun hmem => hlater field hmem
          (Or.inr (Option.mem_toList.mpr hfield)), (hfirst field hfield).2⟩⟩, hlegible⟩, ?_, rfl⟩
        rintro field (hfield | hmem) hseen
        · exact (hfirst field hfield).1 hseen
        · exact hlater field hmem (Or.inl hseen)
      · rintro ⟨⟨⟨hname, hfirst⟩, hlegible⟩, hunseen, rfl⟩
        refine ⟨_, _, ⟨⟨hname, fun field hfield =>
          ⟨hunseen field (Or.inl hfield), (hfirst field hfield).2⟩⟩, rfl⟩,
          ⟨hlegible, ?_, rfl⟩, rfl⟩
        rw [hfields]
        rintro field hmem (hseen | hfield)
        · exact hunseen field (Or.inr hmem) hseen
        · exact (hfirst field (Option.mem_toList.mp hfield)).1 hmem

/-- Legible members in any order are legible. -/
theorem Legible.perm {members others : Members} (hlegible : Legible members)
    (hperm : others.Perm members) : Legible others where
  named := fun member hmember => hlegible.named member (hperm.subset hmember)
  once := (hperm.filterMap of?).nodup_iff.mpr hlegible.once
  suited := fun member hmember => hlegible.suited member (hperm.subset hmember)

end SettingsFields

/-! ## What members say of a field -/

namespace SettingsField

open SettingsFields

/-- The text that members give a field, none if the field has no member or null. -/
def textIn (field : SettingsField) (members : Members) : Option String :=
  (members.find? fun member => of? member = some field).bind fun member => member.2.text?

theorem textIn_of_mem {field : SettingsField} {members : Members}
    {member : List StringUnit × Value} (hlegible : Legible members) (hmember : member ∈ members)
    (hfield : of? member = some field) : field.textIn members = member.2.text? := by
  induction members with
  | nil => cases hmember
  | cons first others ih =>
      obtain ⟨⟨-, hfirst⟩, hothers⟩ := legible_cons_iff.mp hlegible
      by_cases hof : of? first = some field
      · rcases List.mem_cons.mp hmember with rfl | hmember
        · simp [textIn, hof]
        · exact absurd (List.mem_filterMap.mpr ⟨member, hmember, hfield⟩) (hfirst field hof).1
      · have hmember : member ∈ others := by
          rcases List.mem_cons.mp hmember with rfl | hmember
          · exact absurd hfield hof
          · exact hmember
        rw [← ih hothers hmember]
        simp [textIn, hof]

theorem textIn_eq_none {field : SettingsField} {members : Members}
    (habsent : ∀ member ∈ members, of? member ≠ some field) : field.textIn members = none := by
  have hfind : members.find? (fun member => of? member = some field) = none := by
    simpa using habsent
  rw [textIn, hfind, Option.bind_none]

/-- The order of members does not matter. -/
theorem textIn_perm {field : SettingsField} {members others : Members}
    (hlegible : Legible members) (hperm : others.Perm members) :
    field.textIn others = field.textIn members := by
  by_cases hpresent : ∃ member ∈ members, of? member = some field
  · obtain ⟨member, hmember, hfield⟩ := hpresent
    rw [textIn_of_mem hlegible hmember hfield,
      textIn_of_mem (hlegible.perm hperm) (hperm.mem_iff.mpr hmember) hfield]
  · have habsent : ∀ member ∈ members, of? member ≠ some field :=
      fun member hmember hfield => hpresent ⟨member, hmember, hfield⟩
    rw [textIn_eq_none habsent,
      textIn_eq_none fun member hmember => habsent member (hperm.subset hmember)]

theorem get?_said (field : SettingsField) (members : Members) :
    ((said members).get? field).bind id = field.textIn members := by
  induction members with
  | nil => rfl
  | cons member others ih =>
      unfold SettingsFields.get? said textIn at ih ⊢
      cases hof : of? member with
      | none => simpa [hof] using ih
      | some found =>
          by_cases hfound : found = field
          · simp [hof, hfound]
          · simpa [hof, hfound] using ih

end SettingsField

namespace Settings

/-- The settings that members of an object say. -/
def ofMembers (members : Members) : Settings where
  loginModule := (SettingsField.loginModule.textIn members).getD defaultLoginModule
  username := SettingsField.username.textIn members
  password := (SettingsField.password.textIn members).map Password.mk

theorem settings_said (members : Members) :
    (SettingsFields.said members).settings = ofMembers members := by
  simp only [SettingsFields.settings, ofMembers, SettingsField.get?_said]

/-- Settings are read of an object exactly if its members are legible. -/
theorem read_eq_ok_iff {members : Members} {text : String}
    (hwrites : (Value.object members).Writes text) {settings : Settings} :
    read text = .ok settings ↔ SettingsFields.Legible members ∧ settings = ofMembers members := by
  rw [read_of_writes hwrites]
  constructor
  · intro hread
    cases hall : SettingsFields.ofMembers [] members with
    | error error => simp [hall, Except.map] at hread
    | ok added =>
        obtain ⟨hlegible, -, rfl⟩ := SettingsFields.ofMembers_eq_ok_iff.mp hall
        simp only [hall, Except.map, Except.ok.injEq, settings_said] at hread
        exact ⟨hlegible, hread.symm⟩
  · rintro ⟨hlegible, rfl⟩
    have hall := SettingsFields.ofMembers_eq_ok_iff.mpr
      ⟨hlegible, fun field _ => List.not_mem_nil, rfl⟩
    rw [hall, ← settings_said]
    rfl

end Settings

end KerberosHttp
