import KerberosHttp.Http.Header
import KerberosHttp.Transport.Stream
import KerberosHttp.Url.Basic

/-!
# Transports

A transport carries one request at a time: headers are queued, a connection is
made that authenticates and sends the request, the response is read, and the
transport is disconnected.  Any type of states with these five operations is one.

`Traced` puts a record of every operation beside a transport, whatever transport
it is, and does not change what it does.
-/

namespace KerberosHttp

class HttpTransport (σ : Type) where
  /-- Queues a header for the next request. -/
  addHeader : σ → Header → σ
  /-- Authenticates with an endpoint and sends a request entity. -/
  connect : σ → Url → Bytes → Except TransportError Unit × σ
  /-- The response entity of a request that succeeded. -/
  openInput : σ → Except IoError Stream × σ
  /-- The response entity of a request that failed, if there is one. -/
  openError : σ → Option Stream × σ
  /-- Ends the connection. -/
  disconnect : σ → σ

inductive Operation
  | addHeader (header : Header)
  | connect (endpoint : Url) (body : Bytes)
  | openInput
  | openError
  | disconnect
  deriving DecidableEq

/-- A transport with the operations on it so far, in order. -/
structure Traced (σ : Type) where
  inner : σ
  operations : List Operation

namespace Traced

variable {σ : Type}

/-- A transport on which nothing has been done. -/
def ofInner (inner : σ) : Traced σ := ⟨inner, []⟩

def record (traced : Traced σ) (operation : Operation) : List Operation :=
  traced.operations ++ [operation]

instance [HttpTransport σ] : HttpTransport (Traced σ) where
  addHeader traced header :=
    ⟨HttpTransport.addHeader traced.inner header, traced.record (.addHeader header)⟩
  connect traced endpoint body :=
    let (result, inner) := HttpTransport.connect traced.inner endpoint body
    (result, ⟨inner, traced.record (.connect endpoint body)⟩)
  openInput traced :=
    let (result, inner) := HttpTransport.openInput traced.inner
    (result, ⟨inner, traced.record .openInput⟩)
  openError traced :=
    let (result, inner) := HttpTransport.openError traced.inner
    (result, ⟨inner, traced.record .openError⟩)
  disconnect traced :=
    ⟨HttpTransport.disconnect traced.inner, traced.record .disconnect⟩

end Traced

end KerberosHttp
