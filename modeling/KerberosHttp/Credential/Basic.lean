import KerberosHttp.Log

/-!
# Credentials and passwords

A credential is known only by its handle.  What releasing it does, and how often
it has been released, is kept in a `Vault`; handles are copied and forgotten
without any effect on it.

A `ScopedCredential` ties a release to the end of its own life: whoever ends it
passes it to `Vault.endScope`.

Neither a credential nor a password shows in any text made of it.
-/

namespace KerberosHttp

/-- What is shown in the place of a secret. -/
def redacted : String := "[REDACTED]"

/-- A handle of a credential.  Copies of it are equal, and handles of two
credentials are not. -/
structure Credential where
  handle : Nat
  deriving DecidableEq, Repr

/-- A credential as diagnostics show it. -/
def Credential.describe (_ : Credential) : String := "DelegatedCredential(" ++ redacted ++ ")"

/-- A credential as it is shown to anybody. -/
def Credential.display (_ : Credential) : String := redacted

structure Password where
  secret : String
  deriving DecidableEq

def Password.display (_ : Password) : String := redacted

/-- A credential that is released when this value ends, if it is to be. -/
structure ScopedCredential where
  credential : Credential
  disposes : Bool
  deriving DecidableEq, Repr

def ScopedCredential.describe (scope : ScopedCredential) : String :=
  "ScopedCredential \x7b credential: " ++ scope.credential.describe ++ ", dispose: "
    ++ (if scope.disposes then "true" else "false") ++ " \x7d"

/-- What is kept of a credential. -/
structure VaultEntry where
  /-- The failure that each release ends with, if it does -/
  failure : Option TransportError
  /-- How often it has been released -/
  disposals : Nat
  deriving DecidableEq, Repr

/-- All credentials there are, each at the place that its handle names. -/
structure Vault where
  entries : List VaultEntry
  deriving DecidableEq, Repr

namespace Vault

instance : EmptyCollection Vault := ⟨⟨[]⟩⟩

/-- A new credential, whose releases end as given. -/
def create (vault : Vault) (failure : Option TransportError) : Credential × Vault :=
  (⟨vault.entries.length⟩, ⟨vault.entries ++ [⟨failure, 0⟩]⟩)

def disposals (vault : Vault) (credential : Credential) : Nat :=
  (vault.entries[credential.handle]?.map (·.disposals)).getD 0

/-- The failure that releases of a credential end with. -/
def failure? (vault : Vault) (credential : Credential) : Option TransportError :=
  vault.entries[credential.handle]?.bind (·.failure)

/-- Releases a credential.  A release that fails counts as well. -/
def dispose (vault : Vault) (credential : Credential) : Except TransportError Unit × Vault :=
  let after : Vault := ⟨vault.entries.modify credential.handle fun entry =>
    { entry with disposals := entry.disposals + 1 }⟩
  match vault.failure? credential with
  | none => (.ok (), after)
  | some error => (.error error, after)

/-- Ends a scope: its credential is released if it is to be, and a failure is only
reported. -/
def endScope (vault : Vault) (scope : ScopedCredential) : Vault × Log :=
  if scope.disposes then
    match vault.dispose scope.credential with
    | (.ok (), after) => (after, [])
    | (.error error, after) => (after, [.disposalFailed error])
  else (vault, [])

end Vault

end KerberosHttp
