import KerberosHttp.Credential.Basic

/-!
# Principals

Who a request comes from: a name, usually of the form `user@REALM`, and the
credential that the client delegated, if it did.  The realm is what follows the
last `@`, so the user part may hold the sign itself.
-/

namespace KerberosHttp

/-- What stands before the last occurrence of a character and what follows it; none if
it does not occur. -/
def splitAtLast (separator : Char) : List Char → Option (List Char × List Char)
  | [] => none
  | c :: rest =>
    match splitAtLast separator rest with
    | some (before, after) => some (c :: before, after)
    | none => if c = separator then some ([], rest) else none

/-- An authenticated identity. -/
structure Principal where
  name : String
  credential : Option Credential
  deriving DecidableEq, Repr

namespace Principal

/-- A principal that delegated nothing. -/
def ofName (name : String) : Principal := ⟨name, none⟩

/-- The principal with a credential that it delegated. -/
def delegate (principal : Principal) (credential : Credential) : Principal :=
  { principal with credential := some credential }

def userName (principal : Principal) : String :=
  match splitAtLast '@' principal.name.toList with
  | some (user, _) => String.ofList user
  | none => principal.name

def realm (principal : Principal) : Option String :=
  (splitAtLast '@' principal.name.toList).map fun (_, realm) => String.ofList realm

def display (principal : Principal) : String := principal.name

def describe (principal : Principal) : String :=
  "KerberosPrincipal \x7b name: " ++ Text.quote principal.name ++ ", delegated_credential: "
    ++ Text.quoteOption (principal.credential.map Credential.describe) ++ " \x7d"

end Principal

end KerberosHttp
