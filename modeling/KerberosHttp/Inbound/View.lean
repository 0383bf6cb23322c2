import KerberosHttp.Inbound.Request
import KerberosHttp.Inbound.Scheme
import KerberosHttp.Principal

/-!
# The view of an authenticated request

A request together with the principal that negotiation found, if it found one.
The view answers how the request was authenticated, who the user is, and what was
delegated; what it cannot answer it asks the request.

A principal comes from an `Authorization` header.  `authenticate` checks that the
request has one, and the queries for the scheme check it once more.
-/

namespace KerberosHttp

/-- Why a request has no view, or a view no scheme. -/
inductive InboundError
  /-- A request with a principal lacks the header it comes from. -/
  | missingHeader (header : String)
  | authentication (cause : TransportError)
  deriving DecidableEq, Repr

def InboundError.message : InboundError → String
  | .missingHeader header => s!"`{header}` header is missing from an authenticated request"
  | .authentication cause => "inbound negotiation failed: " ++ cause.message

def InboundError.sources : InboundError → List String
  | .missingHeader _ => []
  | .authentication cause => cause.message :: cause.sources

/-- A request and who it comes from. -/
structure RequestView (ρ : Type) where
  inner : ρ
  principal : Option Principal
  deriving DecidableEq

namespace RequestView

variable {ρ : Type}

def anonymous (inner : ρ) : RequestView ρ := ⟨inner, none⟩

/-- The credential that was delegated. -/
def credential (view : RequestView ρ) : Option Credential :=
  view.principal.bind (·.credential)

variable [InboundRequest ρ]

/-- The scheme of the `Authorization` header, and what is reported when it is asked. -/
def authScheme (view : RequestView ρ) : Except InboundError AuthScheme × Log :=
  match InboundRequest.header? view.inner .authorization, view.principal with
  | some value, _ => (.ok (.ofBytes value.content), [])
  | none, some principal =>
    (.error (.missingHeader "Authorization"), [.missingAuthorization principal.name])
  | none, none => (.ok .unset, [])

/-- The token of the scheme, or what the request itself reports. -/
def authType (view : RequestView ρ) : Except InboundError (Option String) × Log :=
  match view.authScheme with
  | (.error error, log) => (.error error, log)
  | (.ok scheme, log) =>
    match scheme.token? with
    | some token => (.ok (some token), log)
    | none => (.ok (InboundRequest.authType? view.inner), log)

/-- The name of the user without the realm, or what the request itself reports. -/
def userName (view : RequestView ρ) : Option String :=
  match view.principal with
  | some principal => some principal.userName
  | none => InboundRequest.remoteUser? view.inner

end RequestView

/-- Views a request after a negotiation, which found a principal or none or failed. -/
def authenticate {ρ : Type} [InboundRequest ρ]
    (negotiate : ρ → Except TransportError (Option Principal)) (request : ρ) :
    Except InboundError (RequestView ρ) × Log :=
  match negotiate request with
  | .error error => (.error (.authentication error), [.negotiationFailed error])
  | .ok none => (.ok ⟨request, none⟩, [])
  | .ok (some principal) =>
    match InboundRequest.header? request .authorization with
    | none => (.error (.missingHeader "Authorization"), [.unfoundedPrincipal principal.name])
    | some _ =>
      (.ok ⟨request, some principal⟩,
        [.authenticated principal.name principal.credential.isSome])

end KerberosHttp
