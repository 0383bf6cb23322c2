import KerberosHttp.ClientAuth.Settings
import KerberosHttp.Proofs.Json.Text

/-!
# Settings read of an object

Settings are read of events.  Where these are the events of an object, the reading goes through
its members one after the other.

## Strategy

A member says something of the fields or nothing (`SettingsFields.ofMember`), and what a member
may say depends on the fields that were seen before it.  The value of an unknown member is skipped
whatever it holds, which is an induction on the value (`skipValue_events`); that of a field is
over after its first event or is not read to its end (`readValue_events`).  So the events of a
member are one step of the reading (`readFields_member`).

## Main statement

* `Settings.read_of_writes`: what is read of a text that writes an object is what its members say.
-/

namespace KerberosHttp

open Json

/-! ## Members -/

namespace Json.Value

/-- The text of a string, if the value is one and spells one. -/
def text? : Value → Option String
  | string units => StringUnit.text? units
  | _ => none

end Json.Value

namespace SettingsField

/-- The field that a member of an object is of. -/
def of? (member : List StringUnit × Value) : Option SettingsField :=
  (StringUnit.text? member.1).bind ofName?

/-- What a field takes from a value. -/
def take (field : SettingsField) : Value → Except ReadError (Option String)
  | .string units =>
    match StringUnit.text? units with
    | some text => .ok (some text)
    | none => .error .malformed
  | .null => if field = .loginModule then .error (.mismatch .null "a string") else .ok none
  | .number text => .error (Settings.mismatch "a string" (.number text))
  | .boolean value => .error (.mismatch (.boolean value) "a string")
  | .array _ => .error (.mismatch .array "a string")
  | .object _ => .error (.mismatch .object "a string")

end SettingsField

namespace SettingsFields

/-- What a member adds to the fields, of which some were seen before. -/
def ofMember (seen : List SettingsField) (member : List StringUnit × Value) :
    Except ReadError SettingsFields :=
  match StringUnit.text? member.1 with
  | none => .error .malformed
  | some name =>
    match SettingsField.ofName? name with
    | none => .ok []
    | some field =>
      if field ∈ seen then .error (.duplicate field.name)
      else (field.take member.2).map fun value => [(field, value)]

/-- What members add to the fields one after the other. -/
def ofMembers (seen : List SettingsField) : Members → Except ReadError SettingsFields
  | [] => .ok []
  | member :: rest => do
    let first ← ofMember seen member
    let others ← ofMembers (seen ++ first.map (·.1)) rest
    return first ++ others

theorem isSome_get?_iff {fields : SettingsFields} {field : SettingsField} :
    (fields.get? field).isSome = true ↔ field ∈ fields.map (·.1) := by
  unfold get?
  rw [Option.isSome_map, List.find?_isSome]
  simp

end SettingsFields

namespace Settings

/-! ## Skipping a value -/

/-- A value is skipped, whatever it holds. -/
def Skipped (value : Value) : Prop :=
  ∀ depth rest, skipValue depth (value.events ++ rest) =
    if depth = 0 then some rest else skipValue depth rest

theorem skipValue_elements {elements : List Value}
    (hskipped : ∀ element ∈ elements, Skipped element) (depth : Nat) (rest : List Event) :
    skipValue (depth + 1) (Value.elementEvents elements ++ rest) = skipValue (depth + 1) rest := by
  induction elements with
  | nil => rfl
  | cons element others ih =>
      obtain ⟨helement, hothers⟩ := List.forall_mem_cons.mp hskipped
      rw [Value.elementEvents, List.append_assoc, helement, if_neg (Nat.succ_ne_zero depth),
        ih hothers]

theorem skipValue_members {members : Members}
    (hskipped : ∀ member ∈ members, Skipped member.2) (depth : Nat) (rest : List Event) :
    skipValue (depth + 1) (Value.memberEvents members ++ rest) = skipValue (depth + 1) rest := by
  induction members with
  | nil => rfl
  | cons member others ih =>
      obtain ⟨name, value⟩ := member
      obtain ⟨hvalue, hothers⟩ := List.forall_mem_cons.mp hskipped
      rw [Value.memberEvents, List.cons_append, List.append_assoc, skipValue, hvalue,
        if_neg (Nat.succ_ne_zero depth), ih hothers]

theorem skipValue_events (value : Value) : Skipped value := by
  induction value using Value.induct with
  | string units => intro depth rest; rfl
  | number text => intro depth rest; rfl
  | boolean value => intro depth rest; rfl
  | null => intro depth rest; rfl
  | array elements ih =>
      intro depth rest
      rw [Value.events, List.cons_append, List.append_assoc, skipValue, skipValue_elements ih]
      cases depth <;> rfl
  | object members ih =>
      intro depth rest
      rw [Value.events, List.cons_append, List.append_assoc, skipValue, skipValue_members ih]
      cases depth <;> rfl

/-! ## Reading members -/

/-- A field reads the value that stands next and nothing more of it than its first event. -/
theorem readValue_events (field : SettingsField) (value : Value) (rest : List Event) :
    readValue field (value.events ++ rest) = (field.take value).map fun said => (said, rest) := by
  cases value with
  | string units =>
      simp only [Value.events, List.singleton_append, readValue, SettingsField.take]
      cases StringUnit.text? units <;> rfl
  | number text => rfl
  | boolean value => rfl
  | null => cases field <;> rfl
  | array elements => rfl
  | object members => rfl

/-- A member adds what it says to the fields, and the reading goes on. -/
theorem readFields_member (name : List StringUnit) (value : Value) (limit : Nat)
    (fields : SettingsFields) (rest : List Event) :
    readFields (limit + 1) fields (.key name :: (value.events ++ rest)) =
      SettingsFields.ofMember (fields.map (·.1)) (name, value) >>= fun added =>
        readFields limit (fields ++ added) rest := by
  rw [readFields, SettingsFields.ofMember]
  cases hname : StringUnit.text? name with
  | none => rfl
  | some text =>
      cases hfield : SettingsField.ofName? text with
      | none =>
          simp only [hfield, skipValue_events value 0, if_pos]
          exact congrArg (readFields limit · rest) (List.append_nil fields).symm
      | some field =>
          simp only [hfield, SettingsFields.isSome_get?_iff]
          by_cases hseen : field ∈ fields.map (·.1)
          · rw [if_pos hseen, if_pos hseen]
            rfl
          · rw [if_neg hseen, if_neg hseen, readValue_events]
            cases field.take value <;> rfl

theorem readFields_members (members : Members) {limit : Nat} (hlimit : members.length < limit)
    (fields : SettingsFields) (rest : List Event) :
    readFields limit fields (Value.memberEvents members ++ .endObject :: rest) =
      (SettingsFields.ofMembers (fields.map (·.1)) members).map fun added =>
        (fields ++ added, rest) := by
  induction members generalizing limit fields with
  | nil =>
      obtain ⟨limit, rfl⟩ := Nat.exists_eq_add_one_of_ne_zero (Nat.ne_zero_of_lt hlimit)
      simp [Value.memberEvents, readFields, SettingsFields.ofMembers, Except.map]
  | cons member others ih =>
      obtain ⟨name, value⟩ := member
      obtain ⟨limit, rfl⟩ := Nat.exists_eq_add_one_of_ne_zero (Nat.ne_zero_of_lt hlimit)
      have hfewer : others.length < limit := Nat.lt_of_succ_lt_succ hlimit
      rw [Value.memberEvents, List.cons_append, List.append_assoc, readFields_member,
        SettingsFields.ofMembers]
      cases SettingsFields.ofMember (fields.map (·.1)) (name, value) with
      | error error => rfl
      | ok added =>
          have hothers := ih hfewer (fields ++ added)
          rw [List.map_append] at hothers
          change readFields limit (fields ++ added) _ = _
          rw [hothers]
          cases hlater : SettingsFields.ofMembers (fields.map (·.1) ++ added.map (·.1)) others with
          | error error => simp [bind, Except.bind, hlater, Except.map]
          | ok later => simp [bind, Except.bind, hlater, Except.map, pure, Except.pure]

theorem length_le_memberEvents (members : Members) :
    members.length ≤ (Value.memberEvents members).length := by
  induction members with
  | nil => exact Nat.le_refl 0
  | cons member others ih =>
      obtain ⟨name, value⟩ := member
      rw [Value.memberEvents, List.length_cons, List.length_cons, List.length_append]
      omega

/-- What is read from a text that writes an object is what its members say. -/
theorem read_of_writes {members : Members} {text : String}
    (hwrites : (Value.object members).Writes text) :
    read text = (SettingsFields.ofMembers [] members).map SettingsFields.settings := by
  have hall : readAll (Value.object members).events =
      (SettingsFields.ofMembers [] members).map fun added => (added, []) := by
    have hlimit : members.length < (Value.memberEvents members ++ [Event.endObject]).length + 1 := by
      have hle := length_le_memberEvents members
      rw [List.length_append]
      omega
    exact readFields_members members hlimit [] []
  rw [read, hwrites.read_eq, ofEvents, hall]
  cases SettingsFields.ofMembers [] members <;> rfl

end Settings

end KerberosHttp
