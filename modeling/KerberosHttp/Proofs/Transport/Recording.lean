import KerberosHttp.Proofs.Transport.Transcript

/-!
# What a recording transport remembers

A recording transport is a function of what was done with it and what it answered
(`RecordingTransport.ofEntries`):

```text
requests         one for each connect, with the headers that were queued by then
pending          what was added since the last connect or disconnect
connectFailure   as given, until the first connect
connected        a connect has succeeded since the last disconnect
disconnects      one for each disconnect
```

## Strategy

One operation takes the function of a transcript to the function of the transcript with
one more entry (`perform_ofEntries`), so a run does (`observe_fresh_eq`).  What it answers
at some point of a run is what the function says there (`observe_of_entries`).
-/

namespace KerberosHttp.RecordingTransport

/-! ## The state from the transcript -/

/-- A transport on which nothing has been done, and whose first attempt to connect may be
to fail. -/
def fresh (reply : Reply) (failure : Option TransportError) : RecordingTransport :=
  { ofReply reply with connectFailure := failure }

/-- The transport that a transcript leaves. -/
def ofEntries (reply : Reply) (failure : Option TransportError) (entries : List Entry) :
    RecordingTransport :=
  let operations := entries.map Entry.operation
  { pending := Operation.queued operations
    requests := Operation.sent operations
    reply := reply
    connectFailure := if operations.any Operation.isConnect then none else failure
    connected := Entry.connected entries
    disconnects := operations.count .disconnect }

/-- One more entry, field by field. -/
theorem ofEntries_concat (reply : Reply) (failure : Option TransportError)
    (entries : List Entry) (entry : Entry) :
    ofEntries reply failure (entries ++ [entry]) =
      let left := ofEntries reply failure entries
      { left with
        pending :=
          if entry.operation.clears then [] else left.pending ++ entry.operation.header?.toList
        requests := left.requests ++
          (Operation.request? (entries.map Entry.operation) entry.operation).toList
        connectFailure := if entry.operation.isConnect then none else left.connectFailure
        connected := !entry.isDisconnect && (left.connected || entry.succeeds)
        disconnects := left.disconnects + if entry.operation = .disconnect then 1 else 0 } := by
  simp only [ofEntries, List.map_append, List.map_singleton, Operation.queued_concat,
    Operation.sent_concat, Entry.connected_concat, List.any_append, List.any_cons, List.any_nil,
    Bool.or_false, List.count_append, List.count_singleton, beq_iff_eq, Bool.or_eq_true]
  cases entry.operation.isConnect <;> simp

attribute [local simp] HttpTransport.perform Operation.clears Operation.header?
  Operation.isConnect Operation.request? Entry.isDisconnect Entry.succeeds

/-- One operation is one more entry. -/
theorem perform_ofEntries (reply : Reply) (failure : Option TransportError)
    (entries : List Entry) (operation : Operation) :
    (HttpTransport.perform (ofEntries reply failure entries) operation).2 =
      ofEntries reply failure
        (entries ++ [(HttpTransport.perform (ofEntries reply failure entries) operation).1]) := by
  rw [ofEntries_concat, HttpTransport.operation_perform]
  cases operation with
  | addHeader header => simp [HttpTransport.addHeader]
  | connect endpoint body =>
      have hpending : (ofEntries reply failure entries).pending =
          Operation.queued (entries.map Entry.operation) := rfl
      cases hfailure : (ofEntries reply failure entries).connectFailure with
      | none => simp [HttpTransport.connect, hfailure, hpending]
      | some error => simp [HttpTransport.connect, hfailure, hpending]
  | openInput => simp [HttpTransport.openInput]
  | openError => simp [HttpTransport.openError]
  | disconnect => simp [HttpTransport.disconnect]

/-- After any operations the transport is what their transcript leaves. -/
theorem observe_fresh_eq (reply : Reply) (failure : Option TransportError)
    (operations : List Operation) :
    (observe (fresh reply failure) operations).inner =
      ofEntries reply failure (observe (fresh reply failure) operations).entries := by
  induction operations using List.reverseRecOn with
  | nil =>
      simp [observe, Observed.ofInner, fresh, ofReply, ofEntries, Operation.queued,
        Operation.sent, Operation.sentAfter, Entry.connected]
  | append_singleton operations operation ih =>
      rw [observe_concat, Observed.perform, ih, perform_ofEntries]

/-! ## What is answered -/

section Answers

variable {reply : Reply} {failure : Option TransportError}

/-- A transport answers as the transcript before it says. -/
theorem entry_of_observe {operations : List Operation} {before later : List Entry} {entry : Entry}
    (hentries : (observe (fresh reply failure) operations).entries = before ++ entry :: later) :
    (HttpTransport.perform (ofEntries reply failure before) entry.operation).1 = entry := by
  obtain ⟨first, last, -, hfirst, hentry⟩ := observe_of_entries hentries
  rw [observe_fresh_eq, hfirst] at hentry
  exact hentry

theorem connect_ofEntries (entries : List Entry) (endpoint : Url) (body : Bytes) :
    (HttpTransport.connect (ofEntries reply failure entries) endpoint body).1 =
      if entries.any (·.operation.isConnect) then .ok () else failure.elim (.ok ()) .error := by
  have hfailure : (ofEntries reply failure entries).connectFailure =
      if entries.any (·.operation.isConnect) then none else failure := by
    rw [ofEntries, List.any_map]
    rfl
  simp only [HttpTransport.connect, hfailure]
  cases entries.any (·.operation.isConnect) with
  | true => rfl
  | false => cases failure <;> rfl

theorem openInput_ofEntries {entries : List Entry} (hconnected : Entry.connected entries = false) :
    (HttpTransport.openInput (ofEntries reply failure entries)).1 = .error notConnected := by
  simp [HttpTransport.openInput, inputStream, ofEntries, hconnected]

theorem openError_ofEntries {entries : List Entry} (hconnected : Entry.connected entries = false) :
    (HttpTransport.openError (ofEntries reply failure entries)).1 = none := by
  simp [HttpTransport.openError, errorStream, ofEntries, hconnected]

/-- Which stream there is depends on the reply and on whether it is connected, and asking
for one changes neither. -/
theorem perform_of_isStream {operation : Operation} (hstream : operation.isStream = true)
    {transport other : RecordingTransport} (hconnected : other.connected = transport.connected)
    (hreply : other.reply = transport.reply) :
    (HttpTransport.perform other operation).1 = (HttpTransport.perform transport operation).1 ∧
      (HttpTransport.perform transport operation).2 = transport := by
  cases operation with
  | openInput => simp [HttpTransport.openInput, inputStream, hreply, hconnected]
  | openError => simp [HttpTransport.openError, errorStream, hreply, hconnected]
  | _ => cases hstream

/-- A stream that is asked for again is the same as long as nothing is connected or
disconnected. -/
theorem stream_again {operations : List Operation} {before between later : List Entry}
    {entry other : Entry}
    (hentries : (observe (fresh reply failure) operations).entries =
      before ++ entry :: (between ++ other :: later))
    (hstream : entry.operation.isStream = true) (hsame : other.operation = entry.operation)
    (hbetween : ∀ entry ∈ between, entry.operation.clears = false) : other = entry := by
  have hentry := entry_of_observe hentries
  rw [← List.cons_append, ← List.append_assoc] at hentries
  have hother := entry_of_observe hentries
  have hconnected : (ofEntries reply failure (before ++ entry :: between)).connected =
      (ofEntries reply failure before).connected := by
    refine Entry.connected_append before (entry :: between) ?_
    intro earlier hmem
    rcases List.mem_cons.mp hmem with rfl | hmem
    · exact Operation.clears_of_isStream hstream
    · exact hbetween earlier hmem
  rw [hsame, (perform_of_isStream hstream hconnected rfl).1, hentry] at hother
  exact hother.symm

/-- Asking for streams leaves no trace in the transport. -/
theorem inner_observe_filter (transport : RecordingTransport) (operations : List Operation) :
    (observe transport (operations.filter (!·.isStream))).inner =
      (observe transport operations).inner := by
  induction operations using List.reverseRecOn with
  | nil => rfl
  | append_singleton operations operation ih =>
      rw [List.filter_append, observe_concat, Observed.perform]
      cases hstream : operation.isStream with
      | true =>
          rw [(perform_of_isStream hstream rfl rfl).2, ← ih]
          simp [hstream]
      | false =>
          rw [← ih]
          simp [hstream, observe_concat, Observed.perform]

end Answers

/-! ## The record -/

/-- What is recorded of some operations. -/
structure Recorded (reply : Reply) (failure : Option TransportError)
    (operations : List Operation) (observed : Observed RecordingTransport) : Prop where
  /-- The transcript is the one of these operations. -/
  whole : observed.operations = operations
  connects : observed.inner.requests.length = operations.countP Operation.isConnect
  disconnects : observed.inner.disconnects = operations.count .disconnect
  /-- Each connect is a request, with what was queued by then, whatever came of it. -/
  request : ∀ before endpoint body later, operations = before ++ .connect endpoint body :: later →
    observed.inner.requests[before.countP Operation.isConnect]? =
      some ⟨endpoint, Operation.queued before, body⟩
  pending : observed.inner.pending = Operation.queued operations
  connected : observed.inner.connected = Entry.connected observed.entries
  /-- Only the first attempt to connect can fail, and does so as it is to fail. -/
  result : ∀ before endpoint body result later,
    observed.entries = before ++ .connect endpoint body result :: later →
    result =
      if before.any (·.operation.isConnect) then .ok () else failure.elim (.ok ()) .error
  /-- Without a connection there is no response. -/
  input : ∀ before opened later, observed.entries = before ++ .openInput opened :: later →
    Entry.connected before = false → opened = .error notConnected
  /-- Nor is there an entity of an error. -/
  error : ∀ before entity later, observed.entries = before ++ .openError entity :: later →
    Entry.connected before = false → entity = none
  /-- A stream that is asked for again is the same, unless there was a connect or a
  disconnect in between. -/
  again : ∀ before entry between other later,
    observed.entries = before ++ entry :: (between ++ other :: later) →
    entry.operation.isStream = true → other.operation = entry.operation →
    (∀ entry ∈ between, entry.operation.clears = false) → other = entry
  /-- Asking for streams leaves no trace. -/
  traceless : (observe (fresh reply failure) (operations.filter (!·.isStream))).inner =
    observed.inner

/-- **What a recording transport remembers is what was done with it.**  Whatever the
operations on a new transport are, it counts them, keeps each request with the headers
that were queued for it, and knows whether it is connected; the failure that it is given
meets the first attempt to connect and no other; and asking for a stream, which it
refuses unless it is connected, changes nothing and can be repeated. -/
theorem observe_recorded (reply : Reply) (failure : Option TransportError)
    (operations : List Operation) :
    Recorded reply failure operations (observe (fresh reply failure) operations) := by
  have hwhole := operations_observe (fresh reply failure) operations
  have hinner := observe_fresh_eq reply failure operations
  have hmap : (observe (fresh reply failure) operations).entries.map Entry.operation =
      operations := hwhole
  have hrequests : (observe (fresh reply failure) operations).inner.requests =
      Operation.sent operations := by
    simp only [hinner, ofEntries, hmap]
  exact
    { whole := hwhole
      connects := by
        rw [hrequests]
        exact Operation.length_sentAfter [] operations
      disconnects := by simp only [hinner, ofEntries, hmap]
      request := by
        rintro before endpoint body later rfl
        rw [hrequests]
        exact Operation.sent_getElem? before later endpoint body
      pending := by simp only [hinner, ofEntries, hmap]
      connected := by simp only [hinner, ofEntries]
      result := by
        intro before endpoint body result later hentries
        have hentry := entry_of_observe hentries
        rw [Entry.operation, HttpTransport.perform, connect_ofEntries] at hentry
        exact ((Entry.connect.inj hentry).2.2).symm
      input := by
        intro before opened later hentries hconnected
        have hentry := entry_of_observe hentries
        rw [Entry.operation, HttpTransport.perform, openInput_ofEntries hconnected] at hentry
        exact (Entry.openInput.inj hentry).symm
      error := by
        intro before entity later hentries hconnected
        have hentry := entry_of_observe hentries
        rw [Entry.operation, HttpTransport.perform, openError_ofEntries hconnected] at hentry
        exact (Entry.openError.inj hentry).symm
      again := by
        intro before entry between other later hentries hstream hsame hbetween
        exact stream_again hentries hstream hsame hbetween
      traceless := inner_observe_filter _ operations }

end KerberosHttp.RecordingTransport
