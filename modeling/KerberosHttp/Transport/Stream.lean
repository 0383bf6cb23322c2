import KerberosHttp.Bytes
import KerberosHttp.Transport.Error

/-!
# Response streams

A response entity as it arrives: in pieces, between which a read may be
interrupted, and with an end that may be a failure.  How the entity is cut, and
how often a read is interrupted, leaves no trace in what is read to the end.
-/

namespace KerberosHttp

/-- What one read of a stream gives. -/
inductive Arrival
  /-- Some octets -/
  | data (content : Bytes)
  /-- Nothing yet: the read has to be repeated -/
  | interrupted
  deriving DecidableEq, Repr

/-- What a stream gives, read by read, and how it ends. -/
structure Stream where
  arrivals : List Arrival
  /-- The failure at the end, if it is no proper end -/
  failure : Option IoError
  deriving DecidableEq, Repr

namespace Stream

/-- The stream that gives some octets at once and ends. -/
def ofBytes (content : Bytes) : Stream := ⟨[.data content], none⟩

/-- The octets that arrive, interruptions left out. -/
def content : List Arrival → Bytes
  | [] => []
  | .data content :: rest => content ++ Stream.content rest
  | .interrupted :: rest => Stream.content rest

/-- Reads a stream to its end. -/
def readToEnd (stream : Stream) : Except IoError Bytes :=
  match stream.failure with
  | none => .ok (content stream.arrivals)
  | some error => .error error

end Stream

end KerberosHttp
