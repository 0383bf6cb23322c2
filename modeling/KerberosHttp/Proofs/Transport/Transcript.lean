import KerberosHttp.Proofs.Connection.Call
import KerberosHttp.Transport.Recording
import Mathlib.Data.List.DropRight

/-!
# The transcript of a transport

What is done with a transport, with what it answered, and what that says about the
requests that were sent.

An observed transport (`Observed`) keeps a transcript of all that is done with it and
answers as before (`Observed.faithful_inner`).  From the operations alone follows what was
sent: a header is queued until the next connect, which sends it, or the next disconnect,
which drops it (`Operation.queued`), and each connect is a request with what was queued by
then (`Operation.sent`).
-/

namespace KerberosHttp

/-! ## Requests from operations -/

namespace Operation

/-- The header that an operation queues. -/
def header? : Operation → Option Header
  | addHeader header => some header
  | _ => none

def isConnect : Operation → Bool
  | connect _ _ => true
  | _ => false

/-- Whether an operation asks for one of the two streams. -/
def isStream : Operation → Bool
  | openInput => true
  | openError => true
  | _ => false

/-- Whether nothing is queued after an operation. -/
def clears : Operation → Bool
  | connect _ _ => true
  | disconnect => true
  | _ => false

theorem clears_of_isStream {operation : Operation} (hstream : operation.isStream = true) :
    operation.clears = false := by
  cases operation with
  | openInput => rfl
  | openError => rfl
  | _ => cases hstream

/-- The headers that were added since the last connect or disconnect. -/
def queued (operations : List Operation) : HeaderMap :=
  (operations.rtakeWhile fun operation => !operation.clears).filterMap header?

/-- The request that an operation sends after others. -/
def request? (before : List Operation) : Operation → Option RecordedRequest
  | connect endpoint body => some ⟨endpoint, queued before, body⟩
  | _ => none

/-- The requests that operations send after others. -/
def sentAfter (before : List Operation) : List Operation → List RecordedRequest
  | [] => []
  | operation :: rest =>
    (request? before operation).toList ++ sentAfter (before ++ [operation]) rest

/-- The requests that operations send. -/
def sent (operations : List Operation) : List RecordedRequest := sentAfter [] operations

theorem queued_concat (operations : List Operation) (operation : Operation) :
    queued (operations ++ [operation]) =
      if operation.clears then [] else queued operations ++ operation.header?.toList := by
  rw [queued, List.rtakeWhile_concat, queued]
  cases hclears : operation.clears with
  | true => rfl
  | false =>
      rw [Bool.not_false, if_pos rfl, List.filterMap_append]
      cases hheader : operation.header? <;> simp [hheader]

/-- What was queued before a disconnect is dropped. -/
example (first second : Header) :
    queued [addHeader first, disconnect, addHeader second] = [second] := rfl

/-- Nothing is queued after a connect. -/
theorem queued_concat_connect (operations : List Operation) (endpoint : Url) (body : Bytes) :
    queued (operations ++ [connect endpoint body]) = [] := by
  rw [queued_concat]
  rfl

/-- Asking for a stream leaves what is queued. -/
theorem queued_concat_of_isStream (operations : List Operation) {operation : Operation}
    (hstream : operation.isStream = true) :
    queued (operations ++ [operation]) = queued operations := by
  rw [queued_concat]
  cases operation with
  | openInput => exact List.append_nil _
  | openError => exact List.append_nil _
  | _ => cases hstream

/-- Headers are queued in the order in which they are added. -/
theorem queued_map_addHeader (headers : List Header) : queued (headers.map addHeader) = headers := by
  induction headers using List.reverseRecOn with
  | nil => rfl
  | append_singleton headers header ih =>
      rw [List.map_append, List.map_singleton, queued_concat, ih]
      rfl

/-- Where nothing was queued, only what follows counts. -/
theorem queued_append_of_queued {first : List Operation} (hqueued : queued first = [])
    (second : List Operation) : queued (first ++ second) = queued second := by
  induction second using List.reverseRecOn with
  | nil => rw [List.append_nil, hqueued]; rfl
  | append_singleton second operation ih =>
      rw [← List.append_assoc, queued_concat, ih, queued_concat]

theorem sentAfter_append (before first second : List Operation) :
    sentAfter before (first ++ second) =
      sentAfter before first ++ sentAfter (before ++ first) second := by
  induction first generalizing before with
  | nil => simp [sentAfter]
  | cons operation rest ih => simp [sentAfter, ih]

theorem sent_append (first second : List Operation) :
    sent (first ++ second) = sent first ++ sentAfter first second :=
  sentAfter_append [] first second

theorem sent_concat (operations : List Operation) (operation : Operation) :
    sent (operations ++ [operation]) = sent operations ++ (request? operations operation).toList := by
  rw [sent_append, sentAfter, sentAfter, List.append_nil]

theorem length_sentAfter (before operations : List Operation) :
    (sentAfter before operations).length = operations.countP isConnect := by
  induction operations generalizing before with
  | nil => rfl
  | cons operation rest ih =>
      rw [sentAfter, List.length_append, ih, List.countP_cons]
      cases operation <;> simp [request?, isConnect, Nat.add_comm]

theorem sentAfter_eq_nil (before : List Operation) {operations : List Operation}
    (hnone : ∀ operation ∈ operations, operation.isConnect = false) :
    sentAfter before operations = [] := by
  rw [← List.length_eq_zero_iff, length_sentAfter, List.countP_eq_zero]
  intro operation hmem
  exact Bool.eq_false_iff.mp (hnone operation hmem)

/-- Each connect is a request, with what was queued by then. -/
theorem sent_getElem? (before later : List Operation) (endpoint : Url) (body : Bytes) :
    (sent (before ++ connect endpoint body :: later))[before.countP isConnect]? =
      some ⟨endpoint, queued before, body⟩ := by
  have hlength : (sent before).length = before.countP isConnect := length_sentAfter [] before
  rw [sent_append, ← hlength, List.getElem?_append_right le_rfl, Nat.sub_self]
  rfl

/-- Where nothing was queued, what was done before does not show in a request. -/
theorem sentAfter_of_queued {before : List Operation} (hqueued : queued before = [])
    (operations : List Operation) : sentAfter before operations = sent operations := by
  induction operations using List.reverseRecOn with
  | nil => rfl
  | append_singleton operations operation ih =>
      rw [sentAfter_append, ih, sent_concat, sentAfter, sentAfter, List.append_nil]
      cases operation with
      | connect endpoint body => rw [request?, request?, queued_append_of_queued hqueued]
      | _ => rfl

end Operation

/-! ## Operations with their answers -/

/-- An operation on a transport with what the transport answered. -/
inductive Entry
  | addHeader (header : Header)
  | connect (endpoint : Url) (body : Bytes) (result : Except TransportError Unit)
  | openInput (opened : Except IoError Stream)
  | openError (entity : Option Stream)
  | disconnect

namespace Entry

def operation : Entry → Operation
  | addHeader header => .addHeader header
  | connect endpoint body _ => .connect endpoint body
  | openInput _ => .openInput
  | openError _ => .openError
  | disconnect => .disconnect

/-- Whether an entry is an attempt to connect that succeeded. -/
def succeeds : Entry → Bool
  | connect _ _ (.ok _) => true
  | _ => false

def isDisconnect : Entry → Bool
  | disconnect => true
  | _ => false

/-- Whether an attempt to connect has succeeded since the last disconnect. -/
def connected (entries : List Entry) : Bool :=
  (entries.rtakeWhile fun entry => !entry.isDisconnect).any succeeds

theorem connected_concat (entries : List Entry) (entry : Entry) :
    connected (entries ++ [entry]) =
      (!entry.isDisconnect && (connected entries || entry.succeeds)) := by
  rw [connected, List.rtakeWhile_concat, connected]
  cases hdisconnect : entry.isDisconnect with
  | true => rfl
  | false => simp

/-- Only connecting and disconnecting makes a difference. -/
theorem connected_append (entries between : List Entry)
    (hbetween : ∀ entry ∈ between, entry.operation.clears = false) :
    connected (entries ++ between) = connected entries := by
  induction between using List.reverseRecOn with
  | nil => rw [List.append_nil]
  | append_singleton between entry ih =>
      have hlast : entry.operation.clears = false := hbetween entry (by simp)
      rw [← List.append_assoc, connected_concat,
        ih fun other hmem => hbetween other (List.mem_append_left _ hmem)]
      cases entry with
      | connect => cases hlast
      | disconnect => cases hlast
      | _ => simp [isDisconnect, succeeds]

end Entry

/-- A transport with a transcript of what was done with it so far. -/
structure Observed (σ : Type) where
  inner : σ
  entries : List Entry

section Observed

variable {σ : Type} [HttpTransport σ]

/-- The entry of an operation, and the transport after it. -/
def HttpTransport.perform (transport : σ) : Operation → Entry × σ
  | .addHeader header => (.addHeader header, HttpTransport.addHeader transport header)
  | .connect endpoint body =>
    let done := HttpTransport.connect transport endpoint body
    (.connect endpoint body done.1, done.2)
  | .openInput =>
    let done := HttpTransport.openInput transport
    (.openInput done.1, done.2)
  | .openError =>
    let done := HttpTransport.openError transport
    (.openError done.1, done.2)
  | .disconnect => (.disconnect, HttpTransport.disconnect transport)

theorem HttpTransport.operation_perform (transport : σ) (operation : Operation) :
    (HttpTransport.perform transport operation).1.operation = operation := by
  cases operation <;> rfl

namespace Observed

/-- A transport of which nothing has been seen. -/
def ofInner (inner : σ) : Observed σ := ⟨inner, []⟩

/-- The transport after an operation, which is the next in its transcript. -/
def perform (observed : Observed σ) (operation : Operation) : Observed σ :=
  ⟨(HttpTransport.perform observed.inner operation).2,
    observed.entries ++ [(HttpTransport.perform observed.inner operation).1]⟩

/-- The operations so far. -/
def operations (observed : Observed σ) : List Operation := observed.entries.map Entry.operation

instance : HttpTransport (Observed σ) where
  addHeader observed header := observed.perform (.addHeader header)
  connect observed endpoint body :=
    ((HttpTransport.connect observed.inner endpoint body).1,
      observed.perform (.connect endpoint body))
  openInput observed :=
    ((HttpTransport.openInput observed.inner).1, observed.perform .openInput)
  openError observed :=
    ((HttpTransport.openError observed.inner).1, observed.perform .openError)
  disconnect observed := observed.perform .disconnect

/-- The transcript of a transport changes nothing that the transport does. -/
theorem faithful_inner : Faithful (Observed.inner : Observed σ → σ) where
  addHeader _ _ := rfl
  connect _ _ _ := rfl
  openInput _ := rfl
  openError _ := rfl
  disconnect _ := rfl

section Entries

variable {observed after : Observed σ}

theorem entries_queue (observed : Observed σ) (headers : List Header) :
    (Connection.queue observed headers).entries =
      observed.entries ++ headers.map Entry.addHeader := by
  induction headers generalizing observed with
  | nil => exact (List.append_nil _).symm
  | cons header rest ih =>
      have hfirst : Connection.queue observed (header :: rest) =
          Connection.queue (HttpTransport.addHeader observed header) rest := rfl
      rw [hfirst, ih, List.map_cons, List.append_cons]
      rfl

theorem entries_connect {endpoint : Url} {body : Bytes} {result : Except TransportError Unit}
    (hconnect : HttpTransport.connect observed endpoint body = (result, after)) :
    after.entries = observed.entries ++ [.connect endpoint body result] := by
  obtain ⟨rfl, rfl⟩ := Prod.mk.inj hconnect
  rfl

theorem entries_openInput {opened : Except IoError Stream}
    (hopen : HttpTransport.openInput observed = (opened, after)) :
    after.entries = observed.entries ++ [.openInput opened] := by
  obtain ⟨rfl, rfl⟩ := Prod.mk.inj hopen
  rfl

theorem entries_openError {entity : Option Stream}
    (hopen : HttpTransport.openError observed = (entity, after)) :
    after.entries = observed.entries ++ [.openError entity] := by
  obtain ⟨rfl, rfl⟩ := Prod.mk.inj hopen
  rfl

end Entries

/-- A transcript with something before it. -/
def behind (earlier : List Entry) (observed : Observed σ) : Observed σ :=
  ⟨observed.inner, earlier ++ observed.entries⟩

/-- A transcript goes on in the same way whatever it began with. -/
theorem faithful_behind (earlier : List Entry) :
    Faithful (behind earlier : Observed σ → Observed σ) where
  addHeader _ _ := by simp [behind, HttpTransport.addHeader, perform]
  connect _ _ _ := by simp [behind, HttpTransport.connect, perform]
  openInput _ := by simp [behind, HttpTransport.openInput, perform]
  openError _ := by simp [behind, HttpTransport.openError, perform]
  disconnect _ := by simp [behind, HttpTransport.disconnect, perform]

end Observed

/-- A transport after some operations, with the transcript of them. -/
def observe (transport : σ) (operations : List Operation) : Observed σ :=
  operations.foldl Observed.perform (.ofInner transport)

theorem observe_concat (transport : σ) (operations : List Operation) (operation : Operation) :
    observe transport (operations ++ [operation]) =
      (observe transport operations).perform operation := by
  rw [observe, List.foldl_append]
  rfl

theorem operations_observe (transport : σ) (operations : List Operation) :
    (observe transport operations).operations = operations := by
  induction operations using List.reverseRecOn with
  | nil => rfl
  | append_singleton operations operation ih =>
      rw [observe_concat, Observed.operations, Observed.perform, List.map_append,
        List.map_singleton, HttpTransport.operation_perform]
      exact congrArg (· ++ [operation]) ih

/-- An entry is what the transport answers after the operations before it. -/
theorem observe_of_entries {transport : σ} {operations : List Operation} {before later : List Entry}
    {entry : Entry} (hentries : (observe transport operations).entries = before ++ entry :: later) :
    ∃ first last, operations = first ++ entry.operation :: last ∧
      (observe transport first).entries = before ∧
      (HttpTransport.perform (observe transport first).inner entry.operation).1 = entry := by
  induction operations using List.reverseRecOn generalizing later with
  | nil => simp [observe, Observed.ofInner] at hentries
  | append_singleton operations operation ih =>
      rw [observe_concat, Observed.perform] at hentries
      rcases List.eq_nil_or_concat later with rfl | ⟨later, last, rfl⟩
      · obtain ⟨hbefore, hlast⟩ := List.append_inj' hentries rfl
        obtain rfl : _ = entry := List.head_eq_of_cons_eq hlast
        rw [HttpTransport.operation_perform]
        exact ⟨operations, [], rfl, hbefore, rfl⟩
      · rw [List.concat_eq_append, ← List.cons_append, ← List.append_assoc] at hentries
        obtain ⟨first, rest, rfl, hbefore, hentry⟩ := ih (List.append_inj' hentries rfl).1
        exact ⟨first, rest ++ [operation], by simp, hbefore, hentry⟩

end Observed

end KerberosHttp
