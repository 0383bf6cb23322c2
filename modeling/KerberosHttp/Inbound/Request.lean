import KerberosHttp.Http.Header

/-!
# Inbound requests

What the view of an authenticated request needs of the request: the first value
of a header, and what the request itself says of its authentication and its user.

Two kinds of requests are here: a plain one, which says nothing itself, and one
that carries what a container says of it.  A reference to a request of any kind is
a request as well, and answers as the one that it points to.
-/

namespace KerberosHttp

class InboundRequest (ρ : Type) where
  /-- The first value of a header -/
  header? : ρ → HeaderName → Option HeaderValue
  /-- The authentication that the request itself reports -/
  authType? : ρ → Option String
  /-- The user that the request itself reports -/
  remoteUser? : ρ → Option String

/-- A request that has headers and reports nothing itself. -/
structure PlainRequest where
  headers : HeaderMap
  deriving DecidableEq

instance : InboundRequest PlainRequest where
  header? request name := request.headers.get? name
  authType? _ := none
  remoteUser? _ := none

/-- A request with the authentication and the user that a container reports. -/
structure ContainerRequest where
  headers : HeaderMap
  authType : Option String
  remoteUser : Option String
  deriving DecidableEq

namespace ContainerRequest

instance : EmptyCollection ContainerRequest := ⟨⟨[], none, none⟩⟩

def ofHeaders (headers : HeaderMap) : ContainerRequest := { (∅ : ContainerRequest) with headers }

def addHeader (request : ContainerRequest) (header : Header) : ContainerRequest :=
  { request with headers := request.headers ++ [header] }

def withAuthType (request : ContainerRequest) (authType : String) : ContainerRequest :=
  { request with authType := some authType }

def withRemoteUser (request : ContainerRequest) (user : String) : ContainerRequest :=
  { request with remoteUser := some user }

end ContainerRequest

instance : InboundRequest ContainerRequest where
  header? request name := request.headers.get? name
  authType? request := request.authType
  remoteUser? request := request.remoteUser

/-- A request that is only referred to. -/
structure BorrowedRequest (ρ : Type) where
  target : ρ
  deriving DecidableEq

instance {ρ : Type} [InboundRequest ρ] : InboundRequest (BorrowedRequest ρ) where
  header? request name := InboundRequest.header? request.target name
  authType? request := InboundRequest.authType? request.target
  remoteUser? request := InboundRequest.remoteUser? request.target

end KerberosHttp
