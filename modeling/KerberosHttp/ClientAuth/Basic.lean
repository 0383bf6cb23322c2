import KerberosHttp.Credential.Basic

/-!
# Client authentication

How an outbound transport logs in: through a login module by itself, through one
with a user name and a password, or with a credential that is already there.
-/

namespace KerberosHttp

/-- How an outbound transport logs in. -/
inductive ClientAuth
  | loginModule (name : String)
  | credential (scope : ScopedCredential)
  | password (loginModule username : String) (password : Password)
  deriving DecidableEq

namespace ClientAuth

/-- Logs in with a credential and releases it afterwards. -/
def ofCredential (credential : Credential) : ClientAuth := .credential ⟨credential, true⟩

/-- Logs in with a credential and releases it afterwards if asked to. -/
def ofCredentialWith (credential : Credential) (disposes : Bool) : ClientAuth :=
  .credential ⟨credential, disposes⟩

/-- The name of the login module, if there is one. -/
def loginModuleName : ClientAuth → Option String
  | loginModule name => some name
  | credential _ => none
  | password name _ _ => some name

def describe : ClientAuth → String
  | loginModule name => "LoginModule \x7b name: " ++ Text.quote name ++ " \x7d"
  | credential scope => "Credential(" ++ scope.describe ++ ")"
  | password name username secret =>
    "Password \x7b login_module: " ++ Text.quote name ++ ", username: "
      ++ Text.quote username ++ ", password: " ++ secret.display ++ " \x7d"

/-- Ends an authentication, and with it the scope that it may hold. -/
def finish (vault : Vault) : ClientAuth → Vault × Log
  | credential scope => vault.endScope scope
  | _ => (vault, [])

end ClientAuth

end KerberosHttp
