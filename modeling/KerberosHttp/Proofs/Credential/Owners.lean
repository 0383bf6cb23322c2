import KerberosHttp.Credential.Holdings
import Mathlib.Data.List.Basic

/-!
# Owners of credentials

What was done with credentials, as a list of actions of which the latest stands first, says
by itself what there is: which credential each name stands for (`origin?`), which owners
were made of copies of it, and which of them have ended (`owners`).  An owner is a scope or
an authentication that holds one; it ends when it is dropped, or when another takes its
place, and stays ended.  No vault is looked at here.
-/

namespace KerberosHttp

/-- Where an owner of a credential is held. -/
inductive Owner.Place
  | scope (name : String)
  | auth (name : String)
  deriving DecidableEq

/-- A scope or an authentication over a copy of a credential. -/
structure Owner where
  place : Owner.Place
  /-- Which credential it is, counted in the order of creation -/
  origin : Nat
  disposes : Bool
  ended : Bool
  deriving DecidableEq

namespace Owner

/-- Whether an owner is at a place and has not ended. -/
def standsAt (place : Owner.Place) (owner : Owner) : Bool :=
  owner.place = place && !owner.ended

/-- Whether a credential is released once this owner has ended. -/
def disposesOf (origin : Nat) (owner : Owner) : Bool :=
  owner.origin = origin && owner.disposes

/-- Whether an owner has ended and has released a credential by that. -/
def hasReleased (origin : Nat) (owner : Owner) : Bool :=
  owner.disposesOf origin && owner.ended

/-- An owner after whatever is at a place has ended. -/
def after (ending : Option Owner.Place) (owner : Owner) : Owner :=
  { owner with ended := owner.ended || ending = some owner.place }

/-- The owner that a scope at a place is. -/
def ofScope (place : Owner.Place) (scope : ScopedCredential) : Owner :=
  ⟨place, scope.credential.handle, scope.disposes, false⟩

theorem after_none (owner : Owner) : owner.after none = owner := by
  unfold after
  simp

theorem after_of_eq (owner : Owner) :
    owner.after (some owner.place) = { owner with ended := true } := by
  unfold after
  simp

theorem after_of_ne {owner : Owner} {ending : Owner.Place} (hplace : owner.place ≠ ending) :
    owner.after (some ending) = owner := by
  unfold after
  simp [Ne.symm hplace]

end Owner

/-! ## What the actions say -/

namespace HoldingAction

/-- The credentials that were created, the first one first: each by the failure that it was
given. -/
def failures : List HoldingAction → List (Option TransportError)
  | [] => []
  | create _ failure :: before => failures before ++ [failure]
  | _ :: before => failures before

/-- The credential that the handle under a name is a copy of. -/
def origin? : List HoldingAction → String → Option Nat
  | [], _ => none
  | create name _ :: before, other =>
    if other = name then some (failures before).length else origin? before other
  | copy source target :: before, other =>
    if other = target then (origin? before source).or (origin? before target)
    else origin? before other
  | forget name :: before, other => if other = name then none else origin? before other
  | _ :: before, other => origin? before other

/-- The owner that an action makes, if there is a handle to make it of.  An authentication
disposes unless something else is said. -/
def makes? (before : List HoldingAction) : HoldingAction → Option Owner
  | scope source target disposes =>
    (origin? before source).map fun origin => ⟨.scope target, origin, disposes, false⟩
  | authenticate source target disposes =>
    (origin? before source).map fun origin => ⟨.auth target, origin, disposes.getD true, false⟩
  | _ => none

/-- The place whose owner an action ends: it is dropped, or another takes its place. -/
def ends? (before : List HoldingAction) : HoldingAction → Option Owner.Place
  | endScope name => some (.scope name)
  | endAuth name => some (.auth name)
  | scope source target _ => (origin? before source).map fun _ => .scope target
  | authenticate source target _ => (origin? before source).map fun _ => .auth target
  | _ => none

/-- Every owner that there has been. -/
def owners : List HoldingAction → List Owner
  | [] => []
  | action :: before =>
    (action.makes? before).toList ++ (owners before).map (Owner.after (action.ends? before))

/-- How often a credential was released through a handle. -/
def releases (origin : Nat) : List HoldingAction → Nat
  | [] => 0
  | dispose name :: before =>
    releases origin before + if origin? before name = some origin then 1 else 0
  | _ :: before => releases origin before

/-- The owners that an action ends. -/
def ending (before : List HoldingAction) (action : HoldingAction) : List Owner :=
  (action.ends? before).elim [] fun place => (owners before).filter (Owner.standsAt place)

/-- Whether an action creates a credential or releases one through a handle. -/
def isOfVault : HoldingAction → Bool
  | create _ _ => true
  | dispose _ => true
  | _ => false

/-- Whether an action makes an owner, if there is a handle to make it of. -/
def isMaker : HoldingAction → Bool
  | scope _ _ _ => true
  | authenticate _ _ _ => true
  | _ => false

/-- The action with credentials whose release does not fail. -/
def reliable : HoldingAction → HoldingAction
  | create name _ => create name none
  | action => action

/-- A handle is of a credential that was created. -/
theorem origin?_lt {history : List HoldingAction} {name : String} {origin : Nat}
    (horigin : origin? history name = some origin) : origin < (failures history).length := by
  induction history generalizing name with
  | nil => cases horigin
  | cons action before ih =>
      cases action with
      | create made failure =>
          rw [failures, List.length_append, List.length_singleton]
          rw [origin?] at horigin
          split at horigin
          · injection horigin with horigin
            omega
          · have hlt := ih horigin
            omega
      | copy source target =>
          rw [origin?] at horigin
          split at horigin
          · rcases Option.or_eq_some_iff.mp horigin with hsource | ⟨-, htarget⟩
            · exact ih hsource
            · exact ih htarget
          · exact ih horigin
      | forget gone =>
          rw [origin?] at horigin
          split at horigin
          · cases horigin
          · exact ih horigin
      | _ => exact ih horigin

theorem makes?_origin_lt {history : List HoldingAction} {action : HoldingAction} {owner : Owner}
    (hmakes : action.makes? history = some owner) : owner.origin < (failures history).length := by
  cases action with
  | scope source target disposes =>
      obtain ⟨origin, horigin, rfl⟩ := Option.map_eq_some_iff.mp hmakes
      exact origin?_lt horigin
  | authenticate source target disposes =>
      obtain ⟨origin, horigin, rfl⟩ := Option.map_eq_some_iff.mp hmakes
      exact origin?_lt horigin
  | _ => cases hmakes

theorem length_failures_le (action : HoldingAction) (history : List HoldingAction) :
    (failures history).length ≤ (failures (action :: history)).length := by
  cases action with
  | create name failure =>
      rw [failures, List.length_append]
      omega
  | _ => exact Nat.le_refl _

/-- An owner is of a credential that was created. -/
theorem owner_origin_lt {history : List HoldingAction} {owner : Owner}
    (howner : owner ∈ owners history) : owner.origin < (failures history).length := by
  induction history generalizing owner with
  | nil => cases howner
  | cons action before ih =>
      apply Nat.lt_of_lt_of_le _ (length_failures_le action before)
      rw [owners, List.mem_append, Option.mem_toList, List.mem_map] at howner
      rcases howner with hmade | ⟨earlier, hearlier, rfl⟩
      · exact makes?_origin_lt hmade
      · have hbefore : earlier.origin < (failures before).length := ih hearlier
        exact hbefore

theorem owners_of_quiet {history : List HoldingAction} {action : HoldingAction}
    (hmakes : action.makes? history = none) (hends : action.ends? history = none) :
    owners (action :: history) = owners history := by
  have hafter : Owner.after none = id := funext Owner.after_none
  rw [owners, hmakes, hends, hafter, List.map_id]
  rfl

end HoldingAction

/-! ## Ending an owner -/

namespace Owner

/-- Nothing stands where an owner has ended, and elsewhere everything stands as before. -/
theorem filter_standsAt_after (ending place : Owner.Place) (owners : List Owner) :
    (owners.map (after (some ending))).filter (standsAt place) =
      if place = ending then [] else owners.filter (standsAt place) := by
  induction owners with
  | nil => split <;> rfl
  | cons owner rest ih =>
      rw [List.map_cons, List.filter_cons, List.filter_cons, ih]
      by_cases hending : owner.place = ending
      · subst hending
        rw [after_of_eq]
        by_cases hplace : place = owner.place
        · simp [standsAt, hplace]
        · simp [standsAt, hplace, Ne.symm hplace]
      · rw [after_of_ne hending]
        by_cases hplace : place = ending
        · simp [standsAt, hplace, hending]
        · simp [hplace]

/-- An end releases what stood at the place. -/
theorem countP_hasReleased_after (ending : Owner.Place) (origin : Nat) (owners : List Owner) :
    (owners.map (after (some ending))).countP (hasReleased origin) =
      owners.countP (hasReleased origin) +
        (owners.filter (standsAt ending)).countP (disposesOf origin) := by
  induction owners with
  | nil => rfl
  | cons owner rest ih =>
      rw [List.map_cons, List.countP_cons, List.countP_cons, List.filter_cons, ih]
      by_cases hending : owner.place = ending
      · subst hending
        rw [after_of_eq]
        cases hended : owner.ended with
        | true =>
            simp [standsAt, hasReleased, disposesOf, hended]
            omega
        | false =>
            have hstands : owner.standsAt owner.place = true := by simp [standsAt, hended]
            rw [if_pos hstands, List.countP_cons]
            simp [hasReleased, disposesOf, hended]
            omega
      · have hstands : ¬ owner.standsAt ending = true := by simp [standsAt, hending]
        rw [after_of_ne hending, if_neg hstands]
        omega

end Owner

end KerberosHttp
