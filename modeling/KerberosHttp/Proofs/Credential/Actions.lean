import KerberosHttp.Proofs.Credential.Owners

/-!
# What one action does with the holdings

Scopes and authentications are on two shelves, but what is done with the one is done with
the other.  Here both are places (`Owner.Place`), which are vacated and given to a scope, and
what an action does is said in these terms, once for each kind of action (`step_scope` and
its like).

A release that fails does what one does that succeeds.  Next to the holdings stand the ones
whose credentials never fail (`Holdings.reliable`), and one action keeps them side by side
(`step_reliable`).
-/

namespace KerberosHttp

/-! ## The vault -/

namespace Vault

/-- The failures that the credentials were created with. -/
def failures (vault : Vault) : List (Option TransportError) :=
  vault.entries.map (·.failure)

theorem failure?_eq (vault : Vault) (credential : Credential) :
    vault.failure? credential = vault.failures[credential.handle]?.join := by
  rw [failure?, failures, List.getElem?_map]
  cases vault.entries[credential.handle]? <;> rfl

/-- A new credential has not been released. -/
theorem disposals_create (vault : Vault) (failure : Option TransportError)
    (credential : Credential) :
    (vault.create failure).2.disposals credential = vault.disposals credential := by
  unfold create disposals
  rw [List.getElem?_append]
  split
  · rfl
  · next hnew =>
      rw [List.getElem?_eq_none (Nat.le_of_not_lt hnew)]
      cases credential.handle - vault.entries.length <;> rfl

theorem dispose_eq (vault : Vault) (credential : Credential) :
    vault.dispose credential =
      ((vault.failure? credential).elim (.ok ()) .error,
        ⟨vault.entries.modify credential.handle fun entry =>
          { entry with disposals := entry.disposals + 1 }⟩) := by
  unfold dispose
  cases vault.failure? credential <;> rfl

/-- A release counts once, whether it fails or not. -/
theorem disposals_dispose {vault : Vault} {credential : Credential}
    (hknown : credential.handle < vault.entries.length) (other : Credential) :
    (vault.dispose credential).2.disposals other =
      vault.disposals other + if credential = other then 1 else 0 := by
  rw [dispose_eq, disposals, List.getElem?_modify, disposals]
  by_cases hsame : credential = other
  · subst hsame
    simp [List.getElem?_eq_getElem hknown]
  · have hhandle : credential.handle ≠ other.handle := fun heq =>
      hsame (by cases credential; cases other; cases heq; rfl)
    simp [hsame, hhandle]

theorem failures_dispose (vault : Vault) (credential : Credential) :
    (vault.dispose credential).2.failures = vault.failures := by
  rw [dispose_eq]
  apply List.ext_getElem?
  intro index
  simp only [failures, List.getElem?_map, List.getElem?_modify]
  cases vault.entries[index]? with
  | none => rfl
  | some entry => split <;> rfl

/-- The end of a scope is the release that it is to be, if it is to be one. -/
theorem endScope_eq (vault : Vault) (scope : ScopedCredential) :
    vault.endScope scope =
      if scope.disposes then
        ((vault.dispose scope.credential).2,
          (vault.failure? scope.credential).toList.map .disposalFailed)
      else (vault, []) := by
  unfold endScope
  rw [dispose_eq]
  cases vault.failure? scope.credential <;> rfl

theorem failures_endScope (vault : Vault) (scope : ScopedCredential) :
    (vault.endScope scope).1.failures = vault.failures := by
  rw [endScope_eq]
  split
  · exact vault.failures_dispose scope.credential
  · rfl

theorem disposals_endScope {vault : Vault} {scope : ScopedCredential}
    (hknown : scope.credential.handle < vault.entries.length) (other : Credential) :
    (vault.endScope scope).1.disposals other =
      vault.disposals other + if scope.disposes ∧ scope.credential = other then 1 else 0 := by
  rw [endScope_eq]
  cases scope.disposes with
  | true => simpa using disposals_dispose hknown other
  | false => simp

end Vault

/-! ## The shelves of the owners -/

/-- The scope that an authentication holds. -/
def ClientAuth.scope? : ClientAuth → Option ScopedCredential
  | credential scope => some scope
  | _ => none

theorem ClientAuth.finish_eq (auth : ClientAuth) (vault : Vault) :
    auth.finish vault = auth.scope?.elim (vault, []) vault.endScope := by
  cases auth <;> rfl

namespace Holdings

/-- The scope that is held at a place, by itself or in an authentication. -/
def scope? (holdings : Holdings) : Owner.Place → Option ScopedCredential
  | .scope name => holdings.scopes.get? name
  | .auth name => (holdings.auths.get? name).bind ClientAuth.scope?

/-- Ends what is held at a place. -/
def vacate (holdings : Holdings) : Owner.Place → Holdings × Log
  | .scope name => holdings.endScope name
  | .auth name => holdings.endAuth name

/-- Holds a scope at a place. -/
def hold (holdings : Holdings) (scope : ScopedCredential) : Owner.Place → Holdings
  | .scope name => { holdings with scopes := holdings.scopes.insert name scope }
  | .auth name => { holdings with auths := holdings.auths.insert name (.credential scope) }

/-- What is left when a place is cleared, with the vault as given. -/
def cleared (holdings : Holdings) (vault : Vault) : Owner.Place → Holdings
  | .scope name => { holdings with vault, scopes := holdings.scopes.erase name }
  | .auth name => { holdings with vault, auths := holdings.auths.erase name }

@[simp] theorem cleared_vault (holdings : Holdings) (vault : Vault) (place : Owner.Place) :
    (holdings.cleared vault place).vault = vault := by
  cases place <;> rfl

@[simp] theorem cleared_handles (holdings : Holdings) (vault : Vault) (place : Owner.Place) :
    (holdings.cleared vault place).handles = holdings.handles := by
  cases place <;> rfl

@[simp] theorem hold_vault (holdings : Holdings) (scope : ScopedCredential) (place : Owner.Place) :
    (holdings.hold scope place).vault = holdings.vault := by
  cases place <;> rfl

@[simp] theorem hold_handles (holdings : Holdings) (scope : ScopedCredential)
    (place : Owner.Place) :
    (holdings.hold scope place).handles = holdings.handles := by
  cases place <;> rfl

theorem vacate_eq (holdings : Holdings) (place : Owner.Place) :
    holdings.vacate place =
      let ended := (holdings.scope? place).elim (holdings.vault, []) holdings.vault.endScope
      (holdings.cleared ended.1 place, ended.2) := by
  cases place with
  | scope name =>
      show holdings.endScope name = _
      unfold endScope
      cases hscope : holdings.scopes.get? name with
      | none => simp [cleared, scope?, hscope, Shelf.erase_of_get?_eq_none hscope]
      | some scope => simp [cleared, scope?, hscope]
  | auth name =>
      show holdings.endAuth name = _
      unfold endAuth
      cases hauth : holdings.auths.get? name with
      | none => simp [cleared, scope?, hauth, Shelf.erase_of_get?_eq_none hauth]
      | some auth => simp [cleared, scope?, hauth, ClientAuth.finish_eq]

theorem scope?_cleared (holdings : Holdings) (vault : Vault) (place other : Owner.Place) :
    (holdings.cleared vault place).scope? other =
      if other = place then none else holdings.scope? other := by
  cases place with
  | scope name =>
      cases other with
      | scope name' => simp [cleared, scope?, Shelf.get?_erase]
      | auth name' => simp [cleared, scope?]
  | auth name =>
      cases other with
      | scope name' => simp [cleared, scope?]
      | auth name' =>
          simp only [cleared, scope?, Shelf.get?_erase, Owner.Place.auth.injEq]
          split <;> rfl

theorem scope?_hold (holdings : Holdings) (scope : ScopedCredential) (place other : Owner.Place) :
    (holdings.hold scope place).scope? other =
      if other = place then some scope else holdings.scope? other := by
  cases place with
  | scope name =>
      cases other with
      | scope name' => simp [hold, scope?, Shelf.get?_insert]
      | auth name' => simp [hold, scope?]
  | auth name =>
      cases other with
      | scope name' => simp [hold, scope?]
      | auth name' =>
          simp only [hold, scope?, Shelf.get?_insert, Owner.Place.auth.injEq]
          split <;> rfl

end Holdings

/-! ## One action -/

namespace Holdings

variable {holdings : Holdings}

theorem step_compare (first second : String) :
    (holdings.step (.compare first second)).2 = (holdings, []) := by
  simp only [step]
  split <;> rfl

theorem step_inspect (name : String) : (holdings.step (.inspect name)).2 = (holdings, []) := by
  simp only [step]
  split <;> rfl

theorem step_copy (source target : String) :
    (holdings.step (.copy source target)).2 =
      ({ holdings with
        handles := (holdings.handles.get? source).elim holdings.handles
          (holdings.handles.insert target) }, []) := by
  simp only [step]
  cases holdings.handles.get? source <;> rfl

theorem step_dispose {name : String} {credential : Credential}
    (hhandle : holdings.handles.get? name = some credential) :
    holdings.step (.dispose name) =
      (.disposed (holdings.vault.dispose credential).1,
        { holdings with vault := (holdings.vault.dispose credential).2 }, []) := by
  simp only [step, hhandle]

theorem step_scope {source : String} {credential : Credential}
    (hhandle : holdings.handles.get? source = some credential) (target : String)
    (disposes : Bool) :
    holdings.step (.scope source target disposes) =
      (.scoped ⟨credential, disposes⟩ true,
        (holdings.vacate (.scope target)).1.hold ⟨credential, disposes⟩ (.scope target),
        (holdings.vacate (.scope target)).2) := by
  simp only [step, hhandle, decide_true]
  rfl

/-- An authentication disposes unless something else is said. -/
theorem step_authenticate {source : String} {credential : Credential}
    (hhandle : holdings.handles.get? source = some credential) (target : String)
    (disposes : Option Bool) :
    holdings.step (.authenticate source target disposes) =
      (.authenticated (.credential ⟨credential, disposes.getD true⟩),
        (holdings.vacate (.auth target)).1.hold ⟨credential, disposes.getD true⟩ (.auth target),
        (holdings.vacate (.auth target)).2) := by
  simp only [step, hhandle]
  cases disposes <;> rfl

/-- Without the handle that an action needs, nothing is done. -/
theorem step_of_unknown {name : String} (hunknown : holdings.handles.get? name = none) :
    holdings.step (.dispose name) = (.unknownHandle, holdings, []) ∧
      (∀ target disposes,
        holdings.step (.scope name target disposes) = (.unknownHandle, holdings, [])) ∧
      ∀ target disposes,
        holdings.step (.authenticate name target disposes) = (.unknownHandle, holdings, []) := by
  simp only [step, hunknown, and_self, implies_true]

end Holdings

/-! ## A second run without failures -/

def Vault.reliable (vault : Vault) : Vault :=
  ⟨vault.entries.map fun entry => { entry with failure := none }⟩

def Holdings.reliable (holdings : Holdings) : Holdings :=
  { holdings with vault := holdings.vault.reliable }

/-- An outcome as if no release failed. -/
def HoldingOutcome.reliable : HoldingOutcome → HoldingOutcome
  | disposed _ => disposed (.ok ())
  | outcome => outcome

namespace Vault

theorem disposals_reliable (vault : Vault) (credential : Credential) :
    vault.reliable.disposals credential = vault.disposals credential := by
  unfold disposals reliable
  rw [List.getElem?_map]
  cases vault.entries[credential.handle]? <;> rfl

theorem failure?_reliable (vault : Vault) (credential : Credential) :
    vault.reliable.failure? credential = none := by
  unfold failure? reliable
  rw [List.getElem?_map]
  cases vault.entries[credential.handle]? <;> rfl

theorem create_reliable (vault : Vault) (failure : Option TransportError) :
    vault.reliable.create none =
      ((vault.create failure).1, (vault.create failure).2.reliable) := by
  simp [create, reliable]

theorem dispose_reliable (vault : Vault) (credential : Credential) :
    vault.reliable.dispose credential = (.ok (), (vault.dispose credential).2.reliable) := by
  rw [dispose_eq, failure?_reliable, dispose_eq]
  refine congrArg (Prod.mk _) (congrArg Vault.mk ?_)
  apply List.ext_getElem?
  intro index
  simp only [reliable, List.getElem?_map, List.getElem?_modify]
  cases vault.entries[index]? with
  | none => rfl
  | some entry => split <;> rfl

theorem endScope_reliable (vault : Vault) (scope : ScopedCredential) :
    vault.reliable.endScope scope = ((vault.endScope scope).1.reliable, []) := by
  rw [endScope_eq, failure?_reliable, dispose_reliable, endScope_eq]
  split <;> rfl

end Vault

namespace Holdings

theorem vacate_reliable (holdings : Holdings) (place : Owner.Place) :
    holdings.reliable.vacate place = ((holdings.vacate place).1.reliable, []) := by
  have hscope : holdings.reliable.scope? place = holdings.scope? place := by cases place <;> rfl
  rw [vacate_eq, hscope, vacate_eq]
  cases holdings.scope? place with
  | none => cases place <;> rfl
  | some scope =>
      have hended := Vault.endScope_reliable holdings.vault scope
      show (holdings.reliable.cleared (holdings.vault.reliable.endScope scope).1 place,
        (holdings.vault.reliable.endScope scope).2) = _
      rw [hended]
      cases place <;> rfl

theorem hold_reliable (holdings : Holdings) (scope : ScopedCredential) (place : Owner.Place) :
    holdings.reliable.hold scope place = (holdings.hold scope place).reliable := by
  cases place <;> rfl

/-- Without failures the same is done, with the same results but for the failures. -/
theorem step_reliable (holdings : Holdings) (action : HoldingAction) :
    holdings.reliable.step action.reliable =
      ((holdings.step action).1.reliable, (holdings.step action).2.1.reliable, []) := by
  have hhandles : holdings.reliable.handles = holdings.handles := rfl
  cases action with
  | create name failure =>
      have hcreate := Vault.create_reliable holdings.vault failure
      simp only [step, HoldingAction.reliable, reliable, hcreate]
      rfl
  | copy source target =>
      simp only [step, HoldingAction.reliable, hhandles]
      cases holdings.handles.get? source <;> rfl
  | forget name => rfl
  | compare first second =>
      simp only [step, HoldingAction.reliable, hhandles]
      cases holdings.handles.get? first <;> cases holdings.handles.get? second <;> rfl
  | inspect name =>
      simp only [step, HoldingAction.reliable, hhandles]
      cases holdings.handles.get? name <;> rfl
  | dispose name =>
      simp only [step, HoldingAction.reliable, hhandles]
      cases holdings.handles.get? name with
      | none => rfl
      | some credential =>
          have hdispose := Vault.dispose_reliable holdings.vault credential
          simp only [reliable, hdispose]
          rfl
  | scope source target disposes =>
      cases hhandle : holdings.handles.get? source with
      | none =>
          rw [(step_of_unknown hhandle).2.1]
          exact (step_of_unknown (hhandles ▸ hhandle)).2.1 target disposes
      | some credential =>
          rw [step_scope hhandle, ← hold_reliable]
          have hreliable : holdings.reliable.handles.get? source = some credential := hhandle
          have hsame := step_scope hreliable target disposes
          rw [vacate_reliable] at hsame
          exact hsame
  | endScope name =>
      show (HoldingOutcome.existed (holdings.scopes.get? name).isSome,
        holdings.reliable.vacate (.scope name)) = _
      rw [vacate_reliable]
      rfl
  | authenticate source target disposes =>
      cases hhandle : holdings.handles.get? source with
      | none =>
          rw [(step_of_unknown hhandle).2.2]
          exact (step_of_unknown (hhandles ▸ hhandle)).2.2 target disposes
      | some credential =>
          rw [step_authenticate hhandle, ← hold_reliable]
          have hreliable : holdings.reliable.handles.get? source = some credential := hhandle
          have hsame := step_authenticate hreliable target disposes
          rw [vacate_reliable] at hsame
          exact hsame
  | endAuth name =>
      show (HoldingOutcome.existed (holdings.auths.get? name).isSome,
        holdings.reliable.vacate (.auth name)) = _
      rw [vacate_reliable]
      rfl

end Holdings

end KerberosHttp
