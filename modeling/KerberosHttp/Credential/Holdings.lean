import KerberosHttp.ClientAuth.Basic

/-!
# Holdings

Somebody who holds credentials under names: handles, scopes over them, and
authentications that hold a scope.  Storing something under a name that is taken
ends what was there.
-/

namespace KerberosHttp

/-- Values under names. -/
abbrev Shelf (α : Type) := List (String × α)

namespace Shelf

variable {α : Type}

def get? (shelf : Shelf α) (name : String) : Option α :=
  (shelf.find? (·.1 = name)).map (·.2)

def erase (shelf : Shelf α) (name : String) : Shelf α :=
  shelf.filter (·.1 ≠ name)

/-- The shelf with a value under a name, in the place of what was there. -/
def insert (shelf : Shelf α) (name : String) (value : α) : Shelf α :=
  shelf.erase name ++ [(name, value)]

theorem get?_cons (entry : String × α) (shelf : Shelf α) (name : String) :
    get? (entry :: shelf) name = if name = entry.1 then some entry.2 else shelf.get? name := by
  unfold get?
  rw [List.find?_cons]
  split <;> simp_all [eq_comm]

theorem get?_erase (shelf : Shelf α) (name other : String) :
    (shelf.erase name).get? other = if other = name then none else shelf.get? other := by
  induction shelf with
  | nil => split <;> rfl
  | cons entry rest ih =>
      have herase : erase (entry :: rest) name =
          if entry.1 = name then erase rest name else entry :: erase rest name := by
        unfold erase
        rw [List.filter_cons]
        split <;> simp_all
      rw [herase, get?_cons]
      by_cases hentry : entry.1 = name
      · rw [if_pos hentry, ih, hentry]
        split <;> rfl
      · rw [if_neg hentry, get?_cons, ih]
        by_cases hother : other = entry.1
        · rw [if_pos hother, if_pos hother, if_neg (hother ▸ hentry)]
        · rw [if_neg hother, if_neg hother]

/-- Nothing is taken off a shelf that has nothing under a name. -/
theorem erase_of_get?_eq_none {shelf : Shelf α} {name : String} (hnone : shelf.get? name = none) :
    shelf.erase name = shelf := by
  unfold get? at hnone
  rw [Option.map_eq_none_iff, List.find?_eq_none] at hnone
  unfold erase
  rw [List.filter_eq_self]
  intro entry hentry
  simpa using hnone entry hentry

theorem get?_insert (shelf : Shelf α) (name other : String) (value : α) :
    (shelf.insert name value).get? other =
      if other = name then some value else shelf.get? other := by
  have happend : (shelf.insert name value).get? other =
      ((shelf.erase name).get? other).or (get? [(name, value)] other) := by
    unfold insert get?
    rw [List.find?_append, Option.map_or]
  rw [happend, get?_erase, get?_cons]
  split
  · rfl
  · cases shelf.get? other <;> rfl

end Shelf

/-- What somebody holds. -/
structure Holdings where
  vault : Vault
  /-- The credential that was created last under each name -/
  created : Shelf Credential
  handles : Shelf Credential
  scopes : Shelf ScopedCredential
  auths : Shelf ClientAuth

inductive HoldingAction
  | create (name : String) (failure : Option TransportError)
  | copy (source target : String)
  | forget (name : String)
  | compare (first second : String)
  | inspect (name : String)
  | dispose (name : String)
  | scope (source target : String) (disposes : Bool)
  | endScope (name : String)
  /-- An authentication over a copy; it disposes unless something else is said -/
  | authenticate (source target : String) (disposes : Option Bool)
  | endAuth (name : String)

inductive HoldingOutcome
  | done
  | unknownHandle
  | existed (was : Bool)
  | compared (same : Bool)
  | inspected (credential : Credential)
  | disposed (result : Except TransportError Unit)
  | scoped (scope : ScopedCredential) (sameHandle : Bool)
  | authenticated (auth : ClientAuth)

namespace Holdings

instance : EmptyCollection Holdings := ⟨⟨∅, [], [], [], []⟩⟩

/-- Ends the scope under a name, if there is one. -/
def endScope (holdings : Holdings) (name : String) : Holdings × Log :=
  match holdings.scopes.get? name with
  | none => (holdings, [])
  | some scope =>
    let (vault, log) := holdings.vault.endScope scope
    ({ holdings with vault, scopes := holdings.scopes.erase name }, log)

/-- Ends the authentication under a name, if there is one. -/
def endAuth (holdings : Holdings) (name : String) : Holdings × Log :=
  match holdings.auths.get? name with
  | none => (holdings, [])
  | some auth =>
    let (vault, log) := auth.finish holdings.vault
    ({ holdings with vault, auths := holdings.auths.erase name }, log)

/-- Does something: what came of it, what is held then, and what was reported. -/
def step (holdings : Holdings) : HoldingAction → HoldingOutcome × Holdings × Log
  | .create name failure =>
    let (credential, vault) := holdings.vault.create failure
    (.done, { holdings with
      vault
      created := holdings.created.insert name credential
      handles := holdings.handles.insert name credential }, [])
  | .copy source target =>
    match holdings.handles.get? source with
    | none => (.unknownHandle, holdings, [])
    | some credential =>
      (.done, { holdings with handles := holdings.handles.insert target credential }, [])
  | .forget name =>
    (.existed (holdings.handles.get? name).isSome,
      { holdings with handles := holdings.handles.erase name }, [])
  | .compare first second =>
    match holdings.handles.get? first, holdings.handles.get? second with
    | some first, some second => (.compared (first = second), holdings, [])
    | _, _ => (.unknownHandle, holdings, [])
  | .inspect name =>
    match holdings.handles.get? name with
    | none => (.unknownHandle, holdings, [])
    | some credential => (.inspected credential, holdings, [])
  | .dispose name =>
    match holdings.handles.get? name with
    | none => (.unknownHandle, holdings, [])
    | some credential =>
      let (result, vault) := holdings.vault.dispose credential
      (.disposed result, { holdings with vault }, [])
  | .scope source target disposes =>
    match holdings.handles.get? source with
    | none => (.unknownHandle, holdings, [])
    | some credential =>
      let scope : ScopedCredential := ⟨credential, disposes⟩
      let (holdings, log) := holdings.endScope target
      (.scoped scope (scope.credential = credential),
        { holdings with scopes := holdings.scopes.insert target scope }, log)
  | .endScope name =>
    let (after, log) := holdings.endScope name
    (.existed (holdings.scopes.get? name).isSome, after, log)
  | .authenticate source target disposes =>
    match holdings.handles.get? source with
    | none => (.unknownHandle, holdings, [])
    | some credential =>
      let auth :=
        match disposes with
        | none => ClientAuth.ofCredential credential
        | some disposes => ClientAuth.ofCredentialWith credential disposes
      let (holdings, log) := holdings.endAuth target
      (.authenticated auth, { holdings with auths := holdings.auths.insert target auth }, log)
  | .endAuth name =>
    let (after, log) := holdings.endAuth name
    (.existed (holdings.auths.get? name).isSome, after, log)

/-- How often the credential created last under each name has been released. -/
def disposals (holdings : Holdings) : List (String × Nat) :=
  holdings.created.map fun (name, credential) => (name, holdings.vault.disposals credential)

end Holdings

end KerberosHttp
