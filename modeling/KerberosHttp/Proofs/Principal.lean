import KerberosHttp.Inbound.View

/-!
# The two parts of a principal's name

A name with an `@` is a user, the last `@` and a realm, and a name without one is a user
alone (`Principal.Spells`).  The two queries give these parts and no others, so that neither
part of one name can pass for a part of another.

A reader of octets finds the same parts.  The octet of the `@` is in no other character
(`Utf8.at_mem_encode_iff`), so the last one stands where the last `@` does, and cutting there
cuts between characters (`Principal.Spells.slices`).

## Main statement

* `Principal.splits_once`: the parts of a name, as characters, as octets, and through the
  view of a request.
-/

namespace KerberosHttp

/-! ## The last occurrence -/

theorem splitAtLast_eq_none_iff {separator : Char} {text : List Char} :
    splitAtLast separator text = none ↔ separator ∉ text := by
  induction text with
  | nil => exact iff_of_true rfl List.not_mem_nil
  | cons c rest ih =>
      rw [splitAtLast, List.mem_cons, not_or, ← ih]
      cases splitAtLast separator rest with
      | some parts => simp
      | none =>
          by_cases hc : c = separator
          · simp [hc]
          · simp [hc, Ne.symm hc]

theorem splitAtLast_append {separator : Char} (before : List Char) {after : List Char}
    (hafter : separator ∉ after) :
    splitAtLast separator (before ++ separator :: after) = some (before, after) := by
  induction before with
  | nil => simp [splitAtLast, splitAtLast_eq_none_iff.mpr hafter]
  | cons c rest ih => rw [List.cons_append, splitAtLast, ih]

/-- The parts are what stands around a separator after which there is none. -/
theorem splitAtLast_eq_some_iff {separator : Char} {text before after : List Char} :
    splitAtLast separator text = some (before, after) ↔
      text = before ++ separator :: after ∧ separator ∉ after := by
  constructor
  · intro hsplit
    induction text generalizing before with
    | nil => cases hsplit
    | cons c rest ih =>
        rw [splitAtLast] at hsplit
        cases hrest : splitAtLast separator rest with
        | some parts =>
            rw [hrest] at hsplit
            obtain ⟨first, last⟩ := parts
            cases hsplit
            obtain ⟨heq, hafter⟩ := ih hrest
            exact ⟨congrArg (c :: ·) heq, hafter⟩
        | none =>
            simp only [hrest] at hsplit
            by_cases hc : c = separator
            · rw [if_pos hc] at hsplit
              cases hsplit
              exact ⟨congrArg (· :: after) hc, splitAtLast_eq_none_iff.mp hrest⟩
            · rw [if_neg hc] at hsplit
              cases hsplit
  · rintro ⟨rfl, hafter⟩
    exact splitAtLast_append before hafter

/-! ## Octets -/

namespace Utf8

/-- The octets are the ones that the text itself is made of. -/
theorem toByteArray_encode (text : String) : (encode text).toByteArray = text.toByteArray := by
  rw [← String.ofList_toList (s := text), String.toByteArray_ofList, encode, String.toList_ofList]
  rfl

theorem length_encode (text : String) : (encode text).length = text.utf8ByteSize := by
  rw [← List.size_toByteArray, toByteArray_encode]
  rfl

/-- The octet of the `@` begins and continues no other character. -/
theorem at_mem_utf8EncodeChar_iff (c : Char) : 64 ∈ String.utf8EncodeChar c ↔ c = '@' := by
  have hoctet : ∀ n : Nat, (64 : UInt8) = UInt8.ofNat n ↔ n % 256 = 64 := by
    intro n
    rw [← UInt8.toNat_inj, UInt8.toNat_ofNat', eq_comm]
    rfl
  have hc : c = '@' ↔ c.val.toNat = 64 := by
    rw [← Char.toNat_inj]
    rfl
  rw [String.utf8EncodeChar, hc]
  split
  · rw [List.mem_singleton, hoctet]
    omega
  · split
    · simp only [List.mem_cons, List.not_mem_nil, or_false, hoctet]
      omega
    · split
      · simp only [List.mem_cons, List.not_mem_nil, or_false, hoctet]
        omega
      · simp only [List.mem_cons, List.not_mem_nil, or_false, hoctet]
        omega

theorem at_mem_encode_iff (text : String) : 64 ∈ encode text ↔ '@' ∈ text.toList := by
  rw [encode, List.mem_flatMap]
  constructor
  · rintro ⟨c, hc, hat⟩
    rw [at_mem_utf8EncodeChar_iff] at hat
    exact hat ▸ hc
  · intro hat
    exact ⟨'@', hat, (at_mem_utf8EncodeChar_iff '@').mpr rfl⟩

/-- The place of the last `@` among octets. -/
def LastAt (octets : Bytes) (index : Nat) : Prop :=
  octets[index]? = some 64 ∧ 64 ∉ octets.drop (index + 1)

theorem lastAt_append {before after : Bytes} (hafter : 64 ∉ after) {index : Nat} :
    LastAt (before ++ 64 :: after) index ↔ index = before.length := by
  unfold LastAt
  constructor
  · rintro ⟨hindex, hlast⟩
    rcases Nat.lt_trichotomy index before.length with hlt | heq | hgt
    · -- the separator itself would still follow
      refine absurd ?_ hlast
      rw [List.drop_append_of_le_length hlt]
      exact List.mem_append_right _ List.mem_cons_self
    · exact heq
    · refine absurd (List.mem_of_getElem? (i := index - (before.length + 1)) ?_) hafter
      rw [List.getElem?_append_right (by omega)] at hindex
      have hsub : index - before.length = (index - (before.length + 1)) + 1 := by omega
      rw [hsub, List.getElem?_cons_succ] at hindex
      exact hindex
  · rintro rfl
    constructor
    · simp
    · rw [List.drop_length_add_append]
      exact hafter

end Utf8

namespace Principal

/-! ## The parts of a name -/

/-- A user and a realm, if there is one, are the parts of a name. -/
inductive Spells : String → String → Option String → Prop
  | user {user : String} (huser : '@' ∉ user.toList) : Spells user user none
  | qualified {user realm : String} (hrealm : '@' ∉ realm.toList) :
      Spells (user ++ "@" ++ realm) user (some realm)

theorem toList_qualified (user realm : String) :
    (user ++ "@" ++ realm).toList = user.toList ++ '@' :: realm.toList := by
  simp

/-- A name has the parts that are read off it. -/
theorem Spells.splitAtLast_eq {name user : String} {realm : Option String}
    (hspells : Spells name user realm) :
    splitAtLast '@' name.toList = realm.map fun realm => (user.toList, realm.toList) := by
  cases hspells with
  | user huser => exact splitAtLast_eq_none_iff.mpr huser
  | qualified hrealm =>
      rw [toList_qualified]
      exact splitAtLast_append user.toList hrealm

variable (principal : Principal)

/-- The queries give parts of the name. -/
theorem spells_parts : Spells principal.name principal.userName principal.realm := by
  unfold userName realm
  cases hsplit : splitAtLast '@' principal.name.toList with
  | none => exact .user (splitAtLast_eq_none_iff.mp hsplit)
  | some parts =>
      obtain ⟨user, realm⟩ := parts
      obtain ⟨hname, hrealm⟩ := splitAtLast_eq_some_iff.mp hsplit
      have hwhole : principal.name = String.ofList user ++ "@" ++ String.ofList realm := by
        rw [← String.toList_inj, toList_qualified, String.toList_ofList, String.toList_ofList]
        exact hname
      rw [hwhole]
      exact .qualified (by rwa [String.toList_ofList])

/-- The name has no other parts. -/
theorem spells_iff {user : String} {realm : Option String} :
    Spells principal.name user realm ↔ principal.userName = user ∧ principal.realm = realm := by
  constructor
  · intro hspells
    obtain ⟨name, credential⟩ := principal
    have hsplit := hspells.splitAtLast_eq
    change Spells name user realm at hspells
    unfold userName Principal.realm
    rw [hsplit]
    cases hspells with
    | user huser => exact ⟨rfl, rfl⟩
    | @qualified user realm hrealm =>
        rw [Option.map_some, Option.map_some]
        exact ⟨String.ofList_toList, congrArg some String.ofList_toList⟩
  · rintro ⟨rfl, rfl⟩
    exact principal.spells_parts

theorem realm_eq_none_iff : principal.realm = none ↔ '@' ∉ principal.name.toList := by
  rw [realm, Option.map_eq_none_iff, splitAtLast_eq_none_iff]

/-! ## Octets of a name -/

theorem encode_qualified (user realm : String) :
    Utf8.encode (user ++ "@" ++ realm) = Utf8.encode user ++ 64 :: Utf8.encode realm := by
  have hat : Utf8.encode "@" = [64] := by decide
  rw [Utf8.encode_append, Utf8.encode_append, hat, List.append_assoc, List.singleton_append]

/-- The octets around the last one that is an `@` are the parts of the name, and both ends
of that octet are between characters. -/
theorem Spells.slices {name user : String} {realm : Option String}
    (hspells : Spells name user realm) {index : Nat}
    (hindex : Utf8.LastAt (Utf8.encode name) index) :
    (⟨index⟩ : String.Pos.Raw).IsValid name ∧ (⟨index + 1⟩ : String.Pos.Raw).IsValid name ∧
      (Utf8.encode name).take index = Utf8.encode user ∧
      realm.map Utf8.encode = some ((Utf8.encode name).drop (index + 1)) := by
  cases hspells with
  | user huser =>
      refine absurd ?_ huser
      rw [← Utf8.at_mem_encode_iff]
      exact List.mem_of_getElem? hindex.1
  | @qualified user realm hrealm =>
      rw [← Utf8.at_mem_encode_iff] at hrealm
      rw [encode_qualified] at hindex ⊢
      obtain rfl := (Utf8.lastAt_append hrealm).mp hindex
      have hat : (user ++ "@").utf8ByteSize = (Utf8.encode user).length + 1 := by
        rw [String.utf8ByteSize_append, Utf8.length_encode]
        rfl
      refine ⟨?_, ?_, List.take_left, ?_⟩
      · rw [String.Pos.Raw.isValid_iff_exists_append]
        refine ⟨user, "@" ++ realm, String.append_assoc, ?_⟩
        rw [Utf8.length_encode]
        rfl
      · rw [String.Pos.Raw.isValid_iff_exists_append]
        refine ⟨user ++ "@", realm, rfl, ?_⟩
        rw [← hat]
        rfl
      · rw [List.drop_length_add_append]
        rfl

/-- A name has no realm exactly if none of its octets is an `@`. -/
theorem Spells.realm_eq_none_iff {name user : String} {realm : Option String}
    (hspells : Spells name user realm) :
    realm = none ↔ ∀ index, ¬ Utf8.LastAt (Utf8.encode name) index := by
  constructor
  · rintro rfl index hindex
    have hslices := (hspells.slices hindex).2.2.2
    cases hslices
  · intro hnone
    cases hspells with
    | user huser => rfl
    | @qualified user realm hrealm =>
        rw [← Utf8.at_mem_encode_iff] at hrealm
        refine absurd ?_ (hnone (Utf8.encode user).length)
        rw [encode_qualified, Utf8.lastAt_append hrealm]

/-- A name without a realm is its own user. -/
theorem Spells.user_eq {name user : String} (hspells : Spells name user none) : user = name := by
  cases hspells
  rfl

/-- Equal parts are of equal names. -/
theorem Spells.name_eq {name name' user : String} {realm : Option String}
    (hspells : Spells name user realm) (hspells' : Spells name' user realm) : name = name' := by
  cases hspells with
  | user huser => cases hspells'; rfl
  | qualified hrealm => cases hspells'; rfl

/-! ## The whole -/

/-- How the name of a principal splits. -/
structure Splits (principal : Principal) : Prop where
  /-- The queries give parts of the name, and there are no others. -/
  parts : ∀ user realm, Spells principal.name user realm ↔
    principal.userName = user ∧ principal.realm = realm
  bare : principal.realm = none ↔ '@' ∉ principal.name.toList
  whole : principal.realm = none → principal.userName = principal.name
  /-- Where the octets are cut is between characters, and the pieces are the parts. -/
  slices : ∀ index, Utf8.LastAt (Utf8.encode principal.name) index →
    (⟨index⟩ : String.Pos.Raw).IsValid principal.name ∧
      (⟨index + 1⟩ : String.Pos.Raw).IsValid principal.name ∧
      (Utf8.encode principal.name).take index = Utf8.encode principal.userName ∧
      principal.realm.map Utf8.encode = some ((Utf8.encode principal.name).drop (index + 1))
  uncut : principal.realm = none ↔ ∀ index, ¬ Utf8.LastAt (Utf8.encode principal.name) index
  identifies : ∀ other : Principal, other.userName = principal.userName →
    other.realm = principal.realm → other.name = principal.name
  /-- A view answers with the user part, whatever request it is of. -/
  seen : ∀ (ρ : Type) [InboundRequest ρ] (request : ρ) (user : String),
    (RequestView.mk request (some principal)).userName = some user ↔
      Spells principal.name user principal.realm
  /-- Two views with one user and one realm are of one name. -/
  sees : ∀ (ρ σ : Type) [InboundRequest ρ] [InboundRequest σ] (request : ρ) (request' : σ)
    (other : Principal),
    (RequestView.mk request' (some other)).userName =
      (RequestView.mk request (some principal)).userName →
    other.realm = principal.realm → other.name = principal.name

/-- **A name splits at its last `@`, and in no other way.**  The user and the realm of a
principal put its name together again, and only they do; a name without an `@` is its own
user.  Cutting the octets of the name around the last one that is an `@` gives the same
parts and never cuts a character.  So a name is known by its user and its realm, also
through the view of a request. -/
theorem splits_once (principal : Principal) : Splits principal := by
  have hspells := principal.spells_parts
  have hidentifies : ∀ other : Principal, other.userName = principal.userName →
      other.realm = principal.realm → other.name = principal.name := by
    intro other huser hrealm
    have hother := other.spells_parts
    rw [huser, hrealm] at hother
    exact hother.name_eq hspells
  exact
    { parts := fun user realm => principal.spells_iff
      bare := principal.realm_eq_none_iff
      whole := fun hnone => (hnone ▸ hspells).user_eq
      slices := fun index hindex => hspells.slices hindex
      uncut := hspells.realm_eq_none_iff
      identifies := hidentifies
      seen := by
        intro ρ _ request user
        rw [principal.spells_iff]
        exact ⟨fun heq => ⟨Option.some.inj heq, rfl⟩, fun hparts => congrArg some hparts.1⟩
      sees := by
        intro ρ σ _ _ request request' other huser
        exact hidentifies other (Option.some.inj huser) }

/-- Signs before the last one belong to the user. -/
example : (ofName "j@d@REALM").userName = "j@d" ∧ (ofName "j@d@REALM").realm = some "REALM" := by
  decide +kernel

end Principal

end KerberosHttp
