import KerberosHttp.Proofs.Credential.Actions

/-!
# How often a credential is released

Somebody makes credentials, copies and forgets their handles, and makes owners of them, which
end sooner or later.  How often each credential has been released by then follows from what
was done:

```text
release through a handle       once
an owner that disposes         once, when it ends
all else                       never
```

## Strategy

`Tallies` says that what is held agrees with a register of what was done.  Each thing that
can be done to the holdings has its lemma (`Tallies.create`, `Tallies.vacate`, ...), and an
action is one of them or two (`Tallies.step`).  The one that counts is `Tallies.vacate`: an
owner that has not ended is on its shelf, and nothing else is there, so that what is taken
off the shelf is released as often as the register says.

## Main statement

* `Holdings.accounted_after`: the vault counts what the actions say.
-/

namespace KerberosHttp

/-! ## What is held agrees with what was done -/

/-- What the actions say, all of it. -/
structure Register where
  failures : List (Option TransportError)
  origin? : String → Option Nat
  releases : Nat → Nat
  owners : List Owner

/-- The register of what was done. -/
def Register.ofActions (history : List HoldingAction) : Register where
  failures := HoldingAction.failures history
  origin? := HoldingAction.origin? history
  releases := fun origin => HoldingAction.releases origin history
  owners := HoldingAction.owners history

/-- What is held agrees with a register. -/
structure Tallies (register : Register) (holdings : Holdings) : Prop where
  failures : holdings.vault.failures = register.failures
  handles : ∀ name, holdings.handles.get? name = (register.origin? name).map Credential.mk
  /-- An owner that has not ended is held, and nothing else is. -/
  standing : ∀ place, register.owners.filter (Owner.standsAt place) =
    ((holdings.scope? place).map (Owner.ofScope place)).toList
  disposals : ∀ origin, holdings.vault.disposals ⟨origin⟩ =
    register.releases origin + register.owners.countP (Owner.hasReleased origin)

namespace Tallies

variable {register : Register} {holdings : Holdings}

theorem length_entries (htallies : Tallies register holdings) :
    holdings.vault.entries.length = register.failures.length := by
  rw [← htallies.failures, Vault.failures, List.length_map]

/-- What stands at a place is what is held there. -/
theorem mem_owners (htallies : Tallies register holdings) {place : Owner.Place}
    {scope : ScopedCredential} (hscope : holdings.scope? place = some scope) :
    Owner.ofScope place scope ∈ register.owners := by
  have hstanding := htallies.standing place
  rw [hscope] at hstanding
  apply List.mem_of_mem_filter (p := Owner.standsAt place)
  rw [hstanding]
  exact List.mem_singleton_self _

/-- Handles are stored and forgotten with no effect on anything else. -/
theorem withHandles (htallies : Tallies register holdings) {handles : Shelf Credential}
    {created : Shelf Credential} {origin? : String → Option Nat}
    (hhandles : ∀ name, handles.get? name = (origin? name).map Credential.mk) :
    Tallies { register with origin? } { holdings with handles, created } where
  failures := htallies.failures
  handles := hhandles
  standing := htallies.standing
  disposals := htallies.disposals

theorem create (htallies : Tallies register holdings) (failure : Option TransportError) :
    Tallies { register with failures := register.failures ++ [failure] }
      { holdings with vault := (holdings.vault.create failure).2 } where
  failures := by
    rw [← htallies.failures]
    exact List.map_append
  handles := htallies.handles
  standing := htallies.standing
  disposals := by
    intro origin
    rw [Vault.disposals_create]
    exact htallies.disposals origin

theorem dispose (htallies : Tallies register holdings) {origin : Nat}
    (hknown : origin < register.failures.length) :
    Tallies
      { register with
        releases := fun other => register.releases other + if origin = other then 1 else 0 }
      { holdings with vault := (holdings.vault.dispose ⟨origin⟩).2 } where
  failures := by rw [Vault.failures_dispose, htallies.failures]
  handles := htallies.handles
  standing := htallies.standing
  disposals := by
    intro other
    rw [← htallies.length_entries] at hknown
    rw [Vault.disposals_dispose hknown, htallies.disposals]
    simp only [Credential.mk.injEq]
    omega

/-- The end of what is held at a place is the end of the owner that stands there. -/
theorem vacate (htallies : Tallies register holdings)
    (hknown : ∀ owner ∈ register.owners, owner.origin < register.failures.length)
    (place : Owner.Place) :
    Tallies { register with owners := register.owners.map (Owner.after (some place)) }
      (holdings.vacate place).1 := by
  have hhere := htallies.standing place
  rw [Holdings.vacate_eq]
  refine ⟨?_, ?_, ?_, ?_⟩
  · rw [Holdings.cleared_vault, ← htallies.failures]
    cases holdings.scope? place with
    | none => rfl
    | some scope => exact holdings.vault.failures_endScope scope
  · intro name
    rw [Holdings.cleared_handles]
    exact htallies.handles name
  · intro other
    rw [Owner.filter_standsAt_after, Holdings.scope?_cleared]
    split
    · rfl
    · exact htallies.standing other
  · intro origin
    rw [Holdings.cleared_vault, Owner.countP_hasReleased_after, hhere]
    cases hscope : holdings.scope? place with
    | none => exact htallies.disposals origin
    | some scope =>
        have hlt : scope.credential.handle < holdings.vault.entries.length := by
          rw [htallies.length_entries]
          exact hknown _ (htallies.mem_owners hscope)
        have hdisposes : (Owner.ofScope place scope).disposesOf origin = true ↔
            scope.disposes = true ∧ scope.credential = ⟨origin⟩ := by
          obtain ⟨⟨handle⟩, disposes⟩ := scope
          rw [Owner.disposesOf, Bool.and_eq_true, decide_eq_true_eq, and_comm, Credential.mk.injEq]
          rfl
        show (holdings.vault.endScope scope).1.disposals ⟨origin⟩ = _
        rw [Vault.disposals_endScope hlt, htallies.disposals, Option.map_some, Option.toList_some,
          List.countP_singleton]
        simp only [hdisposes]
        omega

/-- What is put at an empty place is an owner that stands there. -/
theorem hold (htallies : Tallies register holdings) {place : Owner.Place}
    (hempty : holdings.scope? place = none) (scope : ScopedCredential) :
    Tallies { register with owners := Owner.ofScope place scope :: register.owners }
      (holdings.hold scope place) := by
  refine ⟨?_, ?_, ?_, ?_⟩
  · rw [Holdings.hold_vault]
    exact htallies.failures
  · intro name
    rw [Holdings.hold_handles]
    exact htallies.handles name
  · intro other
    rw [List.filter_cons, htallies.standing other, Holdings.scope?_hold]
    by_cases hother : other = place
    · subst hother
      simp [Owner.standsAt, Owner.ofScope, hempty]
    · simp [Owner.standsAt, Owner.ofScope, hother, Ne.symm hother]
  · intro origin
    rw [Holdings.hold_vault, htallies.disposals, List.countP_cons]
    simp [Owner.hasReleased, Owner.ofScope]

end Tallies

namespace Tallies

variable {history : List HoldingAction} {holdings : Holdings}

theorem get?_of_origin (htallies : Tallies (.ofActions history) holdings) {name : String}
    {origin : Nat} (horigin : HoldingAction.origin? history name = some origin) :
    holdings.handles.get? name = some ⟨origin⟩ :=
  (htallies.handles name).trans (congrArg (Option.map Credential.mk) horigin)

theorem get?_of_unknown (htallies : Tallies (.ofActions history) holdings) {name : String}
    (hunknown : HoldingAction.origin? history name = none) : holdings.handles.get? name = none :=
  (htallies.handles name).trans (congrArg (Option.map Credential.mk) hunknown)

end Tallies

/-! ## One action after another -/

namespace Tallies

variable {history : List HoldingAction} {holdings : Holdings}

/-- An action that makes an owner puts it in the place of the one that was there; without a
handle to make it of, nothing is done. -/
theorem maker_cases (htallies : Tallies (.ofActions history) holdings) {action : HoldingAction}
    (hmaker : action.isMaker = true) :
    (action.makes? history = none ∧ action.ends? history = none ∧
      (holdings.step action).2 = (holdings, [])) ∨
    ∃ place scope, action.makes? history = some (.ofScope place scope) ∧
      action.ends? history = some place ∧
      (holdings.step action).2 =
        ((holdings.vacate place).1.hold scope place, (holdings.vacate place).2) := by
  cases action with
  | scope source target disposes =>
      simp only [HoldingAction.makes?, HoldingAction.ends?]
      cases horigin : HoldingAction.origin? history source with
      | none =>
          left
          rw [(Holdings.step_of_unknown (htallies.get?_of_unknown horigin)).2.1]
          exact ⟨rfl, rfl, rfl⟩
      | some origin =>
          right
          rw [Holdings.step_scope (htallies.get?_of_origin horigin)]
          exact ⟨.scope target, ⟨⟨origin⟩, disposes⟩, rfl, rfl, rfl⟩
  | authenticate source target disposes =>
      simp only [HoldingAction.makes?, HoldingAction.ends?]
      cases horigin : HoldingAction.origin? history source with
      | none =>
          left
          rw [(Holdings.step_of_unknown (htallies.get?_of_unknown horigin)).2.2]
          exact ⟨rfl, rfl, rfl⟩
      | some origin =>
          right
          rw [Holdings.step_authenticate (htallies.get?_of_origin horigin)]
          exact ⟨.auth target, ⟨⟨origin⟩, disposes.getD true⟩, rfl, rfl, rfl⟩
  | _ => cases hmaker

/-- Making an owner keeps what is held in agreement with the owners that there are. -/
theorem step_maker (htallies : Tallies (.ofActions history) holdings) {action : HoldingAction}
    (hmaker : action.isMaker = true) :
    Tallies { Register.ofActions history with owners := HoldingAction.owners (action :: history) }
      (holdings.step action).2.1 := by
  rcases htallies.maker_cases hmaker with
    ⟨hmakes, hends, hstep⟩ | ⟨place, scope, hmakes, hends, hstep⟩
  · rw [hstep, HoldingAction.owners_of_quiet hmakes hends]
    exact htallies
  · have hvacated := htallies.vacate (fun _ => HoldingAction.owner_origin_lt) place
    have hempty : (holdings.vacate place).1.scope? place = none := by
      rw [Holdings.vacate_eq, Holdings.scope?_cleared, if_pos rfl]
    rw [hstep, HoldingAction.owners, hmakes, hends]
    exact hvacated.hold hempty scope

/-- An action keeps what is held in agreement with what was done. -/
theorem step (htallies : Tallies (.ofActions history) holdings) (action : HoldingAction) :
    Tallies (.ofActions (action :: history)) (holdings.step action).2.1 := by
  have hquiet : action.makes? history = none → action.ends? history = none →
      HoldingAction.owners (action :: history) = HoldingAction.owners history :=
    HoldingAction.owners_of_quiet
  unfold Register.ofActions
  cases action with
  | create name failure =>
      rw [hquiet rfl rfl]
      refine (htallies.create failure).withHandles ?_
      intro other
      show (holdings.handles.insert name ⟨holdings.vault.entries.length⟩).get? other = _
      rw [Shelf.get?_insert, HoldingAction.origin?, htallies.handles, htallies.length_entries]
      split <;> rfl
  | copy source target =>
      rw [hquiet rfl rfl, Holdings.step_copy]
      refine htallies.withHandles ?_
      intro other
      rw [HoldingAction.origin?]
      cases horigin : HoldingAction.origin? history source with
      | none =>
          rw [htallies.get?_of_unknown horigin, Option.elim_none, Option.none_or, htallies.handles]
          split
          · next hother => rw [hother]; rfl
          · rfl
      | some origin =>
          rw [htallies.get?_of_origin horigin, Option.elim_some, Option.some_or,
            Shelf.get?_insert, htallies.handles]
          split <;> rfl
  | forget name =>
      rw [hquiet rfl rfl]
      refine htallies.withHandles ?_
      intro other
      rw [Shelf.get?_erase, HoldingAction.origin?, htallies.handles]
      split <;> rfl
  | compare first second =>
      rw [hquiet rfl rfl, Holdings.step_compare]
      exact htallies
  | inspect name =>
      rw [hquiet rfl rfl, Holdings.step_inspect]
      exact htallies
  | dispose name =>
      rw [hquiet rfl rfl]
      cases horigin : HoldingAction.origin? history name with
      | none =>
          rw [(Holdings.step_of_unknown (htallies.get?_of_unknown horigin)).1]
          refine ⟨htallies.failures, htallies.handles, htallies.standing, ?_⟩
          intro other
          rw [htallies.disposals]
          simp [HoldingAction.releases, Register.ofActions, horigin]
      | some origin =>
          rw [Holdings.step_dispose (htallies.get?_of_origin horigin)]
          have hdisposed := htallies.dispose (HoldingAction.origin?_lt horigin)
          refine ⟨hdisposed.failures, hdisposed.handles, hdisposed.standing, ?_⟩
          intro other
          rw [hdisposed.disposals]
          simp [HoldingAction.releases, Register.ofActions, horigin]
  | scope source target disposes => exact htallies.step_maker rfl
  | authenticate source target disposes => exact htallies.step_maker rfl
  | endScope name =>
      exact htallies.vacate (fun _ => HoldingAction.owner_origin_lt) (.scope name)
  | endAuth name =>
      exact htallies.vacate (fun _ => HoldingAction.owner_origin_lt) (.auth name)

/-- The owners that an action ends are the scopes that it finds at the place. -/
theorem ending_eq (htallies : Tallies (.ofActions history) holdings) (action : HoldingAction) :
    action.ending history =
      (action.ends? history).elim []
        fun place => ((holdings.scope? place).map (Owner.ofScope place)).toList := by
  unfold HoldingAction.ending
  cases action.ends? history with
  | none => rfl
  | some place => exact htallies.standing place

/-- But for creations and explicit releases, the vault only ends what the action ends. -/
theorem step_vault (htallies : Tallies (.ofActions history) holdings) {action : HoldingAction}
    (hvault : action.isOfVault = false) :
    ((holdings.step action).2.1.vault, (holdings.step action).2.2) =
      ((action.ends? history).bind holdings.scope?).elim (holdings.vault, [])
        holdings.vault.endScope := by
  by_cases hmaker : action.isMaker = true
  · rcases htallies.maker_cases hmaker with ⟨-, hends, hstep⟩ | ⟨place, scope, -, hends, hstep⟩
    · rw [hstep, hends]
      rfl
    · rw [hstep, hends, Holdings.hold_vault, Holdings.vacate_eq, Holdings.cleared_vault]
      rfl
  · cases action with
    | create name failure => cases hvault
    | dispose name => cases hvault
    | copy source target => rw [Holdings.step_copy]; rfl
    | forget name => rfl
    | compare first second => rw [Holdings.step_compare]; rfl
    | inspect name => rw [Holdings.step_inspect]; rfl
    | endScope name =>
        show ((holdings.vacate (.scope name)).1.vault, (holdings.vacate (.scope name)).2) = _
        rw [Holdings.vacate_eq, Holdings.cleared_vault]
        rfl
    | endAuth name =>
        show ((holdings.vacate (.auth name)).1.vault, (holdings.vacate (.auth name)).2) = _
        rw [Holdings.vacate_eq, Holdings.cleared_vault]
        rfl
    | _ => exact absurd rfl hmaker

/-- What ends without disposing leaves the vault as it was. -/
theorem vault_step_of_ending (htallies : Tallies (.ofActions history) holdings)
    {action : HoldingAction} (hvault : action.isOfVault = false)
    (hending : ∀ owner ∈ action.ending history, owner.disposes = false) :
    (holdings.step action).2.1.vault = holdings.vault := by
  have hstep := congrArg Prod.fst (htallies.step_vault hvault)
  rw [htallies.ending_eq] at hending
  simp only at hstep
  rw [hstep]
  cases hends : action.ends? history with
  | none => rfl
  | some place =>
      rw [hends, Option.elim_some] at hending
      rw [Option.bind_some]
      cases hscope : holdings.scope? place with
      | none => rfl
      | some scope =>
          have hdisposes : scope.disposes = false :=
            hending (Owner.ofScope place scope) (by rw [hscope]; exact List.mem_singleton_self _)
          rw [Option.elim_some, Vault.endScope_eq, hdisposes]
          rfl

/-- A failure to release what an owner disposes of is reported. -/
theorem log_step (htallies : Tallies (.ofActions history) holdings) (action : HoldingAction) :
    (holdings.step action).2.2 =
      ((action.ending history).filter (·.disposes)).filterMap fun owner =>
        (HoldingAction.failures history)[owner.origin]?.join.map .disposalFailed := by
  rw [htallies.ending_eq]
  by_cases hvault : action.isOfVault = true
  · cases action with
    | create name failure => rfl
    | dispose name =>
        simp only [Holdings.step]
        cases holdings.handles.get? name <;> rfl
    | _ => cases hvault
  · have hstep := congrArg Prod.snd (htallies.step_vault (Bool.eq_false_iff.mpr hvault))
    simp only at hstep
    rw [hstep]
    cases action.ends? history with
    | none => rfl
    | some place =>
        rw [Option.bind_some, Option.elim_some]
        cases holdings.scope? place with
        | none => rfl
        | some scope =>
            obtain ⟨credential, disposes⟩ := scope
            rw [Option.elim_some, Vault.endScope_eq, Vault.failure?_eq, htallies.failures]
            cases disposes with
            | false => rfl
            | true =>
                show (HoldingAction.failures history)[credential.handle]?.join.toList.map _ =
                  [Owner.ofScope place ⟨credential, true⟩].filterMap _
                rw [List.filterMap_cons]
                simp only [Owner.ofScope]
                cases (HoldingAction.failures history)[credential.handle]?.join <;> rfl

end Tallies

namespace Holdings

/-- What is held after some actions, the latest first. -/
def after : List HoldingAction → Holdings
  | [] => ∅
  | action :: before => ((after before).step action).2.1

theorem after_reliable (history : List HoldingAction) :
    after (history.map HoldingAction.reliable) = (after history).reliable := by
  induction history with
  | nil => rfl
  | cons action before ih => rw [List.map_cons, after, ih, step_reliable, after]

theorem tallies_after (history : List HoldingAction) :
    Tallies (.ofActions history) (after history) := by
  induction history with
  | nil =>
      refine ⟨rfl, fun name => rfl, ?_, fun origin => rfl⟩
      intro place
      cases place <;> rfl
  | cons action before ih => exact ih.step action

end Holdings

/-! ## The accounts -/

namespace Holdings

open HoldingAction

/-- The accounts of some actions, of which the latest stands first, and of whatever is done
next. -/
structure Accounted (history : List HoldingAction) (holdings : Holdings) : Prop where
  /-- A credential has been released once for each release through a handle of it, and once
  for each owner of it that disposes and has ended. -/
  disposals : ∀ origin, holdings.vault.disposals ⟨origin⟩ =
    releases origin history + (owners history).countP (Owner.hasReleased origin)
  /-- An owner that has not ended is held where it was put, and nothing else is. -/
  standing : ∀ place, (owners history).filter (Owner.standsAt place) =
    ((holdings.scope? place).map (Owner.ofScope place)).toList
  handles : ∀ name, holdings.handles.get? name = (origin? history name).map Credential.mk
  /-- Two handles are equal exactly if they are copies of one creation. -/
  compared : ∀ first second origin origin', origin? history first = some origin →
    origin? history second = some origin' →
    (holdings.step (.compare first second)).1 = .compared (origin = origin')
  /-- A scope is over the credential of its handle. -/
  scope : ∀ source target disposes origin, origin? history source = some origin →
    (holdings.step (.scope source target disposes)).1 = .scoped ⟨⟨origin⟩, disposes⟩ true
  /-- So is an authentication, which disposes unless something else is said. -/
  authentication : ∀ source target disposes origin, origin? history source = some origin →
    (holdings.step (.authenticate source target disposes)).1 =
      .authenticated (.credential ⟨⟨origin⟩, disposes.getD true⟩)
  /-- A release ends as its credential was created to end it. -/
  disposed : ∀ name origin, origin? history name = some origin →
    (holdings.step (.dispose name)).1 =
      .disposed ((failures history)[origin]?.join.elim (.ok ()) .error)
  /-- Only creations, releases and the end of an owner that disposes change the vault. -/
  kept : ∀ action : HoldingAction, action.isOfVault = false →
    (∀ owner ∈ action.ending history, owner.disposes = false) →
    (holdings.step action).2.1.vault = holdings.vault
  /-- A failure at the end of an owner is reported. -/
  reported : ∀ action : HoldingAction, (holdings.step action).2.2 =
    ((action.ending history).filter (·.disposes)).filterMap fun owner =>
      (failures history)[owner.origin]?.join.map .disposalFailed
  /-- If no release could fail, the same would be held, and all counts would be the same. -/
  held : after (history.map HoldingAction.reliable) = holdings.reliable ∧
    ∀ credential, holdings.reliable.vault.disposals credential =
      holdings.vault.disposals credential
  /-- So would be all that comes of an action, but for the failure of a release. -/
  outcome : ∀ action : HoldingAction,
    (holdings.reliable.step action.reliable).1 = (holdings.step action).1.reliable

/-- **Releases are accounted for.**  Whatever is done with credentials, their handles and
their owners, each credential is released once for each release through a handle of it and
once for each owner of it that disposes and has ended; an owner ends once.  Copying,
forgetting and looking at handles release nothing, nor do owners that do not dispose.
Handles are equal exactly if they are copies of the same creation, and whether releases
fail changes no count and stops nothing. -/
theorem accounted_after (history : List HoldingAction) :
    Accounted history (after history) := by
  have htallies := tallies_after history
  refine
    { disposals := htallies.disposals
      standing := htallies.standing
      handles := htallies.handles
      compared := ?_
      scope := ?_
      authentication := ?_
      disposed := ?_
      kept := ?_
      reported := ?_
      held := ⟨after_reliable history, ?_⟩
      outcome := ?_ }
  · intro first second origin origin' hfirst hsecond
    simp only [step, htallies.get?_of_origin hfirst, htallies.get?_of_origin hsecond,
      Credential.mk.injEq]
  · intro source target disposes origin horigin
    rw [step_scope (htallies.get?_of_origin horigin)]
  · intro source target disposes origin horigin
    rw [step_authenticate (htallies.get?_of_origin horigin)]
  · intro name origin horigin
    rw [step_dispose (htallies.get?_of_origin horigin), Vault.dispose_eq,
      Vault.failure?_eq, htallies.failures]
    rfl
  · intro action hvault hending
    exact htallies.vault_step_of_ending hvault hending
  · intro action
    exact htallies.log_step action
  · intro credential
    exact Vault.disposals_reliable _ credential
  · intro action
    rw [step_reliable]

/-- A credential is released as a scope over it is replaced by one that does not dispose,
and once more through a handle that is left. -/
example :
    ((after [.dispose "copy", .endScope "scope", .scope "copy" "scope" false, .forget "first",
      .scope "first" "scope" true, .copy "first" "copy", .create "first" none]).vault.disposals
        ⟨0⟩) = 2 := by
  decide +kernel

end Holdings

end KerberosHttp
