import KerberosHttp.Proofs.ClientAuth.Legible
import Mathlib.Tactic.Convert

/-!
# A password that cannot be read

A password is a string, and once it is read it does not show.  But where another value stands in
its place, the error names what was found, and for a number or a boolean that is the value itself.

## Strategy

Members are read one after the other, so whether the value of the password is looked at at all
depends on what stands before it (`Reached`).  If it is, a string or null goes into the settings,
which show only that there is a password (`describe_settings`), and any other value ends the
reading with an error that names it as `Value.echo?` says (`message?_take`).

## Main statement

* `Settings.shown_eq_iff`: two objects that differ in the value of the password show the same of
  it exactly if the values are named alike or are not reached.
-/

namespace KerberosHttp

open Json

/-! ## Values -/

namespace Json.Value

/-- Two values of one type.  Of strings only those that spell a text are compared, and one in
which half of a surrogate pair stands alone spells none. -/
inductive SameType : Value → Value → Prop
  | string {units units' : List StringUnit} {text text' : String}
      (htext : StringUnit.text? units = some text) (htext' : StringUnit.text? units' = some text') :
      SameType (.string units) (.string units')
  | number (text text' : NumberText) : SameType (.number text) (.number text')
  | boolean (value value' : Bool) : SameType (.boolean value) (.boolean value')
  | null : SameType .null .null
  | array (elements elements' : List Value) : SameType (.array elements) (.array elements')
  | object (members members' : Members) : SameType (.object members) (.object members')

/-- How an error names a value that stands in the place of a string or of null.  A number out of
range is not named. -/
def echo? : Value → Option String
  | string _ => none
  | number text => text.value?.map fun
    | .integer value => (UnexpectedValue.integer value).describe
    | .real value => (UnexpectedValue.real (realText value)).describe
  | boolean value => some (UnexpectedValue.boolean value).describe
  | null => none
  | array _ => some UnexpectedValue.array.describe
  | object _ => some UnexpectedValue.object.describe

/-- Whether a value is one that an error names by itself and not only by its type. -/
def isScalar : Value → Bool
  | number _ | boolean _ => true
  | _ => false

theorem SameType.echo?_eq {value value' : Value} (htype : value.SameType value')
    (hscalar : value.isScalar = false) : value.echo? = value'.echo? := by
  cases htype with
  | number | boolean => cases hscalar
  | _ => rfl

end Json.Value

namespace SettingsFields

open SettingsField (of? take)

/-- The value of the password is reached behind such members. -/
def Reached (before : Members) : Prop :=
  Legible before ∧ SettingsField.password ∉ before.filterMap of?

theorem ofMembers_append (seen : List SettingsField) (first second : Members) :
    ofMembers seen (first ++ second) =
      ofMembers seen first >>= fun added =>
        (ofMembers (seen ++ added.map (·.1)) second).map (added ++ ·) := by
  induction first generalizing seen with
  | nil =>
      simp only [List.nil_append, ofMembers, bind, Except.bind, List.map_nil, List.append_nil]
      cases ofMembers seen second <;> rfl
  | cons member others ih =>
      rw [List.cons_append, ofMembers, ofMembers]
      cases ofMember seen member with
      | error error => rfl
      | ok added =>
          simp only [bind, Except.bind, ih]
          cases ofMembers (seen ++ added.map (·.1)) others with
          | error error => rfl
          | ok later =>
              simp only [pure, Except.pure, List.map_append, List.append_assoc]
              cases ofMembers (seen ++ (added.map (·.1) ++ later.map (·.1))) second with
              | error error => rfl
              | ok last => simp [Except.map]

section Password

variable {name : List StringUnit} (hname : StringUnit.text? name = some "password")

include hname

theorem ofMember_password (seen : List SettingsField) (value : Value) :
    ofMember seen (name, value) =
      if .password ∈ seen then .error (.duplicate "password")
      else (take .password value).map fun found => [(.password, found)] := by
  have hfield : SettingsField.ofName? "password" = some .password := by decide
  simp only [ofMember, hname, hfield]
  rfl

/-- Where the password is not reached, its value makes no difference. -/
theorem ofMembers_of_not_reached {before : Members} (hreached : ¬ Reached before)
    (after : Members) :
    ∃ error, ∀ value, ofMembers [] (before ++ (name, value) :: after) = .error error := by
  cases hbefore : ofMembers [] before with
  | error error =>
      refine ⟨error, fun value => ?_⟩
      rw [ofMembers_append, hbefore]
      rfl
  | ok added =>
      obtain ⟨hlegible, -, rfl⟩ := ofMembers_eq_ok_iff.mp hbefore
      have hseen : .password ∈ before.filterMap of? :=
        not_not.mp fun hseen => hreached ⟨hlegible, hseen⟩
      refine ⟨.duplicate "password", fun value => ?_⟩
      rw [ofMembers_append, hbefore]
      simp only [bind, Except.bind, List.nil_append, map_said, ofMembers,
        ofMember_password hname, if_pos hseen]
      rfl

theorem ofMembers_of_reached {before : Members} (hreached : Reached before) (value : Value)
    (after : Members) :
    ofMembers [] (before ++ (name, value) :: after) =
      take .password value >>= fun found =>
        (ofMembers (before.filterMap of? ++ [.password]) after).map fun later =>
          said before ++ (.password, found) :: later := by
  obtain ⟨hlegible, hseen⟩ := hreached
  have hbefore : ofMembers [] before = .ok (said before) :=
    ofMembers_eq_ok_iff.mpr ⟨hlegible, fun _ _ => List.not_mem_nil, rfl⟩
  rw [ofMembers_append, hbefore]
  simp only [bind, Except.bind, List.nil_append, map_said, ofMembers, ofMember_password hname,
    if_neg hseen]
  cases take .password value with
  | error error => rfl
  | ok found =>
      simp only [Except.map, List.map_cons, List.map_nil]
      cases ofMembers (before.filterMap of? ++ [.password]) after <;> rfl

end Password

end SettingsFields

namespace Settings

open SettingsFields

/-- What is shown of a text that is read: the settings, or the wording of the error. -/
def shown (text : String) : Except (Option String) String :=
  match read text with
  | .ok settings => .ok settings.describe
  | .error error => .error error.message?

theorem settings_password {front back : SettingsFields} (secret : String)
    (hfront : .password ∉ front.map (·.1)) :
    (front ++ (.password, some secret) :: back).settings =
      { (front ++ (.password, none) :: back).settings with password := some ⟨secret⟩ } := by
  have hpassword : front.find? (fun field => field.1 = .password) = none := by
    refine List.find?_eq_none.mpr fun field hfield hof => hfront ?_
    exact List.mem_map.mpr ⟨field, hfield, of_decide_eq_true hof⟩
  simp [SettingsFields.settings, SettingsFields.get?, List.find?_append, hpassword]

/-- The wording of an error about a value that stands in the place of a string. -/
def wording (words : String) : String := "invalid type: " ++ words ++ ", expected " ++ "a string"

theorem wording_injective : Function.Injective wording := by
  intro words words' hwords
  have hfront := (String.append_left_inj _).mp ((String.append_left_inj _).mp hwords)
  exact (String.append_right_inj _).mp hfront

/-- The error about a value in the place of the password names it. -/
theorem message?_take {value : Value} {error : ReadError}
    (herror : SettingsField.password.take value = .error error) :
    error.message? = value.echo?.map wording := by
  cases value with
  | string units =>
      rw [SettingsField.take] at herror
      cases htext : StringUnit.text? units with
      | none =>
          rw [htext] at herror
          cases herror
          rfl
      | some text => simp [htext] at herror
  | number text =>
      cases herror
      rw [mismatch, Value.echo?]
      rcases text.value? with _ | number
      · rfl
      · cases number <;> rfl
  | boolean value =>
      cases herror
      rfl
  | null => cases herror
  | array elements =>
      cases herror
      rfl
  | object members =>
      cases herror
      rfl

/-- What the password takes from two values of one type: both are texts or both are null, or both
are errors that name them. -/
theorem take_cases {value value' : Value} (htype : value.SameType value') :
    (∃ found found', SettingsField.password.take value = .ok found ∧
      SettingsField.password.take value' = .ok found' ∧ found.isSome = found'.isSome ∧
      value.echo? = value'.echo?) ∨
    ∃ error error', SettingsField.password.take value = .error error ∧
      SettingsField.password.take value' = .error error' ∧
      error.message? = value.echo?.map wording ∧ error'.message? = value'.echo?.map wording := by
  cases htype with
  | string htext htext' =>
      exact .inl ⟨_, _, take_eq_ok_iff.mpr ⟨.string htext, rfl⟩,
        take_eq_ok_iff.mpr ⟨.string htext', rfl⟩, by simp [Value.text?, htext, htext'], rfl⟩
  | null => exact .inl ⟨none, none, rfl, rfl, rfl, rfl⟩
  | number => exact .inr ⟨_, _, rfl, rfl, message?_take rfl, message?_take rfl⟩
  | boolean => exact .inr ⟨_, _, rfl, rfl, message?_take rfl, message?_take rfl⟩
  | array => exact .inr ⟨_, _, rfl, rfl, message?_take rfl, message?_take rfl⟩
  | object => exact .inr ⟨_, _, rfl, rfl, message?_take rfl, message?_take rfl⟩

/-- Settings show whether there is a password, and nothing more of it. -/
theorem describe_settings {front back : SettingsFields} {found found' : Option String}
    (hfront : .password ∉ front.map (·.1)) (hfound : found.isSome = found'.isSome) :
    (front ++ (.password, found) :: back).settings.describe =
      (front ++ (.password, found') :: back).settings.describe := by
  cases found with
  | none =>
      obtain rfl : found' = none := by simpa using hfound.symm
      rfl
  | some secret =>
      obtain ⟨secret', rfl⟩ := Option.isSome_iff_exists.mp hfound.symm
      rw [settings_password secret hfront, settings_password secret' hfront]
      rfl

/-- **A password that cannot be read shows.**  Take two objects that differ only in the value of a
member for the password, and there in values of one type; two strings are compared only where
both spell a text.  Settings are read of both or of neither, and for two such strings, two arrays
or two objects what is shown is the same.  But for two numbers or two booleans it is the same only
if the errors name the two alike, or if something that is wrong before the password keeps it from
being looked at. -/
theorem shown_eq_iff {before after : Members} {name : List StringUnit} {value value' : Value}
    {text text' : String} (hname : StringUnit.text? name = some "password")
    (htype : value.SameType value')
    (hwrites : (Value.object (before ++ (name, value) :: after)).Writes text)
    (hwrites' : (Value.object (before ++ (name, value') :: after)).Writes text') :
    ((∃ settings, read text = .ok settings) ↔ ∃ settings, read text' = .ok settings) ∧
      (shown text = shown text' ↔ (Reached before → value.echo? = value'.echo?)) ∧
      (value.isScalar = false → shown text = shown text') := by
  suffices hshown : ((∃ settings, read text = .ok settings) ↔
        ∃ settings, read text' = .ok settings) ∧
      (shown text = shown text' ↔ (Reached before → value.echo? = value'.echo?)) from
    ⟨hshown.1, hshown.2, fun hscalar => hshown.2.mpr fun _ => htype.echo?_eq hscalar⟩
  by_cases hreached : Reached before
  · have hread := read_of_writes hwrites
    have hread' := read_of_writes hwrites'
    rw [ofMembers_of_reached hname hreached] at hread hread'
    rcases take_cases htype with ⟨found, found', htake, htake', hfound, hecho⟩ |
      ⟨error, error', htake, htake', hwords, hwords'⟩
    · rw [htake] at hread
      rw [htake'] at hread'
      have hfront : SettingsField.password ∉ (said before).map (·.1) := by
        rw [map_said]
        exact hreached.2
      simp only [bind, Except.bind] at hread hread'
      cases hafter :
          SettingsFields.ofMembers (before.filterMap SettingsField.of? ++ [.password]) after with
      | error error => simp [shown, hread, hread', hafter, Except.map, hecho]
      | ok later =>
          simp [shown, hread, hread', hafter, Except.map, hecho, describe_settings hfront hfound]
    · rw [htake] at hread
      rw [htake'] at hread'
      simp [shown, hread, hread', hreached, bind, Except.bind, Except.map, hwords, hwords',
        (Option.map_injective wording_injective).eq_iff]
  · obtain ⟨error, herror⟩ := ofMembers_of_not_reached hname hreached after
    have hread : read text = .error error := by
      rw [read_of_writes hwrites, herror]
      rfl
    have hread' : read text' = .error error := by
      rw [read_of_writes hwrites', herror]
      rfl
    simp [shown, hread, hread', hreached]

/-- Two numbers in the place of a password are told apart. -/
theorem shown_ne_of_numbers :
    let number (digit : Nat) : Value := .number (.ofParts false [digit] none none)
    let object (digit : Nat) : Value := .object [(StringUnit.plain "password", number digit)]
    (object 1).Writes "\x7b\"password\":1\x7d" ∧ (object 2).Writes "\x7b\"password\":2\x7d" ∧
      (number 1).SameType (number 2) ∧
      shown "\x7b\"password\":1\x7d" ≠ shown "\x7b\"password\":2\x7d" := by
  intro number object
  have hdigit : ∀ digit < 10, NumberWritten false (.ofParts false [digit] none none)
      [Nat.digitChar digit] := by
    intro digit hdigit
    exact .parts ⟨by simp, by simpa using hdigit⟩ (by simp) .absent .absent
  have hstops : Stops ['\x7d'] := by
    rintro c ⟨⟩
    decide
  have hwritten (digit : Nat) (hsmall : digit < 10) := Writes.next .openBrace nofun <|
    .next (.plain "password" (by decide +kernel)) nofun <| .next .colon nofun <|
    .next (.number (hdigit digit hsmall)) (fun _ _ => hstops) <| .next .closeBrace nofun <|
    .done (List.forall_mem_nil _)
  have hfirst : (object 1).Writes "\x7b\"password\":1\x7d" := by
    rw [Value.Writes]
    convert hwritten 1 (by decide) using 1
    · decide +kernel
    · decide +kernel
  have hsecond : (object 2).Writes "\x7b\"password\":2\x7d" := by
    rw [Value.Writes]
    convert hwritten 2 (by decide) using 1
    · decide +kernel
    · decide +kernel
  have hreached : Reached [] :=
    ⟨⟨List.forall_mem_nil _, List.nodup_nil, List.forall_mem_nil _⟩, List.not_mem_nil⟩
  have htype : (number 1).SameType (number 2) := .number _ _
  refine ⟨hfirst, hsecond, htype, fun hshown => ?_⟩
  have hsame := @shown_eq_iff [] [] _ _ _ _ _ (StringUnit.text?_plain "password") htype hfirst
    hsecond
  exact absurd (hsame.2.1.mp hshown hreached) (by decide +kernel)

end Settings

end KerberosHttp
