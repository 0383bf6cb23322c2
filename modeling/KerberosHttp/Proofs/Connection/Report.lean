import KerberosHttp.Proofs.Connection.Lifecycle
import KerberosHttp.Proofs.Transport.Transcript
import Mathlib.Data.List.Forall2

/-!
# What a connection reports

The log of a connection tells what was done with its transport, and nothing else:

```text
sending SOAP request             a connect, with what was queued for it and its length
authenticated connect failed     a connect that failed
input stream failed, ...         a response that could not be read, and the entity of the
                                 error was asked for
transport disconnected           the end of a call
```

## Strategy

`Truthful` says what a transcript and a log have to do with each other.  Transcripts and
logs can be put together (`Truthful.append`) as long as nothing is left queued, and
nothing is after any use (`Account`).  So it is enough to look at one use, which begins
with an empty transcript: a call ends in one of five places (`Exchanges.truthful`), each
of which is put together from a few entries.
-/

namespace KerberosHttp

/-! ## A transcript and a log -/

namespace Entry

/-- The report of a failure to connect. -/
def connectFailed? : Entry → Option LogEvent
  | connect endpoint _ (.error error) => some (.connectFailed endpoint error)
  | _ => none

/-- The report of a response that could not be opened or broke off. -/
def inputFailed? : Entry → Option LogEvent
  | openInput opened =>
    match Stream.entity opened with
    | .error error => some (.inputFailed error)
    | .ok _ => none
  | _ => none

def isOpenError : Entry → Bool
  | openError _ => true
  | _ => false

end Entry

/-- The events in which something is said. -/
def Log.saying (log : Log) (text : String) : Log := log.filter (·.message = text)

theorem Log.saying_append (log later : Log) (text : String) :
    Log.saying (log ++ later) text = log.saying text ++ later.saying text :=
  List.filter_append ..

/-- An event announces a request: its endpoint, its content type, its action, and how many
octets its body has. -/
def Announces (event : LogEvent) (request : RecordedRequest) : Prop :=
  ∃ headers : CallHeaders, request.headers = headers.toList ∧
    event = .sendingRequest request.endpoint headers.contentType headers.soapAction
      request.body.length

/-- A log tells what is in a transcript. -/
structure Truthful (entries : List Entry) (log : Log) : Prop where
  /-- Each connect was announced, in order, and nothing else was. -/
  sent : List.Forall₂ Announces (log.saying "sending SOAP request")
    (Operation.sent (entries.map Entry.operation))
  /-- What failed to connect is what is said to have failed. -/
  unconnected : log.saying "authenticated connect failed" =
    entries.filterMap Entry.connectFailed?
  /-- There are no other warnings. -/
  warned : log.filter (·.level = .warn) = log.saying "authenticated connect failed"
  /-- A response that could not be read is reported with its failure. -/
  unread : log.saying "input stream failed, reading error stream" =
    entries.filterMap Entry.inputFailed?
  /-- The entity of an error was asked for as often as that is reported. -/
  consulted : entries.countP Entry.isOpenError =
    (log.saying "input stream failed, reading error stream").length

namespace Truthful

theorem nil : Truthful [] [] := ⟨.nil, rfl, rfl, rfl, rfl⟩

/-- Transcripts and logs can be put together if nothing is left queued. -/
theorem append {first second : List Entry} {log later : Log} (hfirst : Truthful first log)
    (hqueued : Operation.queued (first.map Entry.operation) = [])
    (hsecond : Truthful second later) : Truthful (first ++ second) (log ++ later) where
  sent := by
    rw [Log.saying_append, List.map_append, Operation.sent_append,
      Operation.sentAfter_of_queued hqueued]
    exact List.rel_append hfirst.sent hsecond.sent
  unconnected := by
    rw [Log.saying_append, List.filterMap_append, hfirst.unconnected, hsecond.unconnected]
  warned := by
    rw [Log.saying_append, List.filter_append, hfirst.warned, hsecond.warned]
  unread := by
    rw [Log.saying_append, List.filterMap_append, hfirst.unread, hsecond.unread]
  consulted := by
    rw [Log.saying_append, List.countP_append, List.length_append, hfirst.consulted,
      hsecond.consulted]

/-! ## A few entries -/

/-- A connect, with what was queued for it. -/
theorem connect (request : Soap.Message) (headers : CallHeaders) (url : Url)
    (result : Except TransportError Unit) :
    Truthful (headers.toList.map Entry.addHeader ++ [.connect url request.content result])
      (Connection.sending request headers url ::
        match result with
        | .error error => [.connectFailed url error]
        | .ok _ => []) := by
  have hadditions : (headers.toList.map Entry.addHeader).map Entry.operation =
      headers.toList.map Operation.addHeader := List.map_map ..
  have hnone : Operation.sent (headers.toList.map Operation.addHeader) = [] :=
    Operation.sentAfter_eq_nil [] (by simp [Operation.isConnect])
  have hsent : Operation.sent ((headers.toList.map Entry.addHeader ++
      [Entry.connect url request.content result]).map Entry.operation) =
      [⟨url, headers.toList, request.content⟩] := by
    rw [List.map_append, List.map_singleton, hadditions]
    simp only [Entry.operation, Operation.sent_concat, hnone, Operation.request?,
      Operation.queued_map_addHeader]
    rfl
  have hannounces : Announces (Connection.sending request headers url)
      ⟨url, headers.toList, request.content⟩ := ⟨headers, rfl, rfl⟩
  exact
    { sent := by
        rw [hsent]
        cases result <;> exact .cons hannounces .nil
      unconnected := by
        cases result <;>
          simp [Log.saying, Connection.sending, LogEvent.message, Entry.connectFailed?]
      warned := by cases result <;> rfl
      unread := by
        cases result <;>
          simp [Log.saying, Connection.sending, LogEvent.message, Entry.inputFailed?]
      consulted := by
        cases result <;>
          simp [Log.saying, Connection.sending, LogEvent.message, Entry.isOpenError] }

theorem openInput {opened : Except IoError Stream} {content : Bytes}
    (hread : Stream.entity opened = .ok content) : Truthful [.openInput opened] [] where
  sent := .nil
  unconnected := rfl
  warned := rfl
  unread := by simp [Log.saying, Entry.inputFailed?, hread]
  consulted := rfl

theorem openError {opened : Except IoError Stream} {error : IoError} (entity : Option Stream)
    (hread : Stream.entity opened = .error error) :
    Truthful [.openInput opened, .openError entity] [.inputFailed error] where
  sent := .nil
  unconnected := rfl
  warned := rfl
  unread := by simp [Log.saying, Entry.inputFailed?, hread, LogEvent.message]
  consulted := rfl

theorem disconnect : Truthful [.disconnect] [] := ⟨.nil, rfl, rfl, rfl, rfl⟩

theorem disconnected : Truthful [.disconnect] [.disconnected] := ⟨.nil, rfl, rfl, rfl, rfl⟩

end Truthful

/-! ## The transcript of a connection -/

namespace Connection

section Transcript

variable {σ : Type}

/-- A connection of which nothing has been seen. -/
def observed (connection : Connection σ) : Connection (Observed σ) :=
  connection.through Observed.ofInner

/-- What was done with the transport that a connection owns. -/
def wire (connection : Connection (Observed σ)) : List Entry :=
  (connection.transport.map Observed.entries).getD []

theorem through_observed (connection : Connection σ) :
    connection.observed.through Observed.inner = connection := by
  obtain ⟨transport, version⟩ := connection
  cases transport <;> rfl

theorem wire_observed (connection : Connection σ) : connection.observed.wire = [] := by
  obtain ⟨transport, version⟩ := connection
  cases transport <;> rfl

theorem wire_behind (earlier : List Entry) {connection : Connection (Observed σ)}
    (howned : connection.transport.isSome = true) :
    (connection.through (Observed.behind earlier)).wire = earlier ++ connection.wire := by
  obtain ⟨transport, version⟩ := connection
  cases transport with
  | none => cases howned
  | some transport => rfl

end Transcript

end Connection

section Uses

variable {σ : Type} [HttpTransport σ] [Url.Reader]

namespace Connection

variable {version : Soap.Version} {request : Soap.Message} {endpoint : String}

/-! ## One call -/

/-- What a call has connected with is what it queued and sent. -/
theorem Connects.entries {transport : σ} {headers : CallHeaders} {url : Url}
    {result : Except TransportError Unit} {after : Observed σ}
    (hconnects : Connects request endpoint (Observed.ofInner transport) headers url result after) :
    after.entries =
      headers.toList.map Entry.addHeader ++ [.connect url request.content result] := by
  rw [Observed.entries_connect hconnects.connect, Observed.entries_queue]
  rfl

/-- What a call does and reports until it disconnects. -/
theorem Exchanges.truthful {transport : σ}
    {done : Outcome (Observed σ) (Except CallError Soap.Message)}
    (hdone : Exchanges version request endpoint (Observed.ofInner transport) done) :
    Truthful done.transport.entries done.log ∧
      Operation.queued (done.transport.entries.map Entry.operation) = [] ∧
      .disconnected ∉ done.log := by
  -- After the connect nothing is queued, whatever is asked for then.
  have hconnect : ∀ (headers : CallHeaders) (url : Url) (result : Except TransportError Unit),
      Operation.queued ((headers.toList.map Entry.addHeader ++
        [Entry.connect url request.content result]).map Entry.operation) = [] := by
    intro headers url result
    rw [List.map_append]
    exact Operation.queued_concat_connect _ _ _
  cases hdone with
  | violation => exact ⟨.nil, rfl, List.not_mem_nil⟩
  | endpoint => exact ⟨.nil, rfl, List.not_mem_nil⟩
  | unconnected hconnects =>
      dsimp only
      rw [hconnects.entries]
      exact ⟨.connect request _ _ (.error _), hconnect _ _ _, by simp [sending]⟩
  | answered hconnects hopen hread =>
      dsimp only
      rw [Observed.entries_openInput hopen, hconnects.entries]
      refine ⟨(Truthful.connect request _ _ (.ok ())).append (hconnect _ _ _) (.openInput hread),
        ?_, by simp [sending]⟩
      rw [List.map_append]
      exact (Operation.queued_concat_of_isStream _ rfl).trans (hconnect _ _ _)
  | fellBack hconnects hopen hread herror =>
      dsimp only
      rw [Observed.entries_openError herror, Observed.entries_openInput hopen, hconnects.entries]
      refine ⟨?_, ?_, by simp [sending]⟩
      · rw [List.append_assoc]
        exact (Truthful.connect request _ _ (.ok ())).append (hconnect _ _ _)
          (.openError _ hread)
      · rw [List.map_append, List.map_append]
        exact (Operation.queued_concat_of_isStream _ rfl).trans
          ((Operation.queued_concat_of_isStream _ rfl).trans (hconnect _ _ _))

/-! ## One use -/

/-- What a use of a connection reports. -/
def report (connection : Connection σ) (use : Use) : Log :=
  ((Session.ofConnection connection).step (Handling.use use).action).log

/-- What a use does with the transport, and what it reports. -/
structure Account where
  entries : List Entry
  log : Log

def account (connection : Connection σ) (use : Use) : Account :=
  ⟨(connection.observed.after use).wire, connection.report use⟩

/-- How the log of a use ends: with one event that the transport was disconnected, and no
other such event, if a call owned it, and otherwise there is no log. -/
def Ends (owned : Bool) : Use → Log → Prop
  | .call _ _, log =>
    if owned then ∃ front, log = front ++ [.disconnected] ∧ .disconnected ∉ front else log = []
  | .close, log => log = []

/-- The account of a use is as it should be. -/
structure Account.Fits (owned : Bool) (use : Use) (account : Account) : Prop where
  truthful : Truthful account.entries account.log
  /-- Nothing is left queued. -/
  idle : Operation.queued (account.entries.map Entry.operation) = []
  ends : Ends owned use account.log

theorem step_use_eq (connection : Connection σ) (use : Use) :
    ∃ result, (Session.ofConnection connection).step (Handling.use use).action =
      ⟨result, Session.ofConnection (connection.after use), connection.report use, none⟩ := by
  cases use with
  | call request endpoint => exact ⟨_, rfl⟩
  | close => exact ⟨_, rfl⟩

/-- A connection keeps its transport. -/
theorem isSome_after (connection : Connection σ) (use : Use) :
    (connection.after use).transport.isSome = connection.transport.isSome := by
  obtain ⟨transport, version⟩ := connection
  cases transport with
  | none => cases use <;> rfl
  | some transport => cases use <;> rfl

section Through

variable {τ : Type} [HttpTransport τ] {view : σ → τ}

/-- Through a faithful view a use does the same. -/
theorem after_through (hview : Faithful view) (connection : Connection σ) (use : Use) :
    (connection.through view).after use = (connection.after use).through view := by
  cases use with
  | call request endpoint => rw [after, hview.call, after]
  | close => exact hview.close connection

/-- Through a faithful view a use reports the same. -/
theorem report_through (hview : Faithful view) (connection : Connection σ) (use : Use) :
    (connection.through view).report use = connection.report use :=
  congrArg SessionStep.log (hview.step (Session.ofConnection connection) (Handling.use use).action)

end Through

theorem fits_account (connection : Connection σ) (use : Use) :
    (connection.account use).Fits connection.transport.isSome use := by
  obtain ⟨transport, version⟩ := connection
  cases transport with
  | none =>
      cases use with
      | call request endpoint => exact ⟨.nil, rfl, rfl⟩
      | close => exact ⟨.nil, rfl, rfl⟩
  | some transport =>
      cases use with
      | close => exact ⟨.disconnect, rfl, rfl⟩
      | call request endpoint =>
          let done := exchange version request endpoint (Observed.ofInner transport)
          obtain ⟨htruthful, hqueued, hnone⟩ :=
            (exchanges_exchange version request endpoint (Observed.ofInner transport)).truthful
          have hentries :
              (account ⟨some transport, version⟩ (.call request endpoint)).entries =
                done.transport.entries ++ [.disconnect] := rfl
          -- What is reported without a transcript is what is reported with one.
          have hlog : (account ⟨some transport, version⟩ (.call request endpoint)).log =
              done.log ++ [.disconnected] :=
            report_through Observed.faithful_inner ⟨some (Observed.ofInner transport), version⟩
              (.call request endpoint)
          exact
            { truthful := by
                rw [hentries, hlog]
                exact htruthful.append hqueued .disconnected
              idle := by
                rw [hentries, List.map_append]
                exact Operation.queued_concat _ _
              ends := by
                rw [hlog]
                exact ⟨done.log, rfl, hnone⟩ }

/-! ## A run of uses -/

/-- The accounts of some uses. -/
def accounts (connection : Connection σ) : List Use → List Account
  | [] => []
  | use :: rest => connection.account use :: (connection.after use).accounts rest

/-- The transcript goes on with what a use does. -/
theorem wire_after (connection : Connection (Observed σ)) (use : Use) :
    (connection.after use).wire =
      connection.wire ++ ((connection.through Observed.inner).account use).entries := by
  obtain ⟨transport, version⟩ := connection
  cases transport with
  | none => cases use <;> rfl
  | some transport =>
      obtain ⟨inner, entries⟩ := transport
      have hbehind : (⟨some ⟨inner, entries⟩, version⟩ : Connection (Observed σ)) =
          (observed ⟨some inner, version⟩).through (Observed.behind entries) := by
        simp [observed, through, Observed.behind, Observed.ofInner]
      have howned := isSome_after (observed (⟨some inner, version⟩ : Connection σ)) use
      rw [hbehind, after_through (Observed.faithful_behind entries), wire_behind _ howned,
        wire_behind _ rfl]
      simp [account, observed, wire, through, Observed.behind, Observed.ofInner]

theorem wire_afterAll (connection : Connection (Observed σ)) (uses : List Use) :
    (connection.afterAll uses).wire = connection.wire ++
      ((connection.through Observed.inner).accounts uses).flatMap Account.entries := by
  induction uses generalizing connection with
  | nil => exact (List.append_nil _).symm
  | cons use rest ih =>
      rw [afterAll, List.foldl_cons, ← afterAll, ih, wire_after,
        ← after_through Observed.faithful_inner, accounts, List.flatMap_cons, List.append_assoc]

theorem fits_accounts (connection : Connection σ) (uses : List Use) :
    List.Forall₂ (Account.Fits connection.transport.isSome) uses (connection.accounts uses) := by
  induction uses generalizing connection with
  | nil => exact .nil
  | cons use rest ih =>
      have hrest := ih (connection.after use)
      rw [isSome_after] at hrest
      exact .cons (connection.fits_account use) hrest

omit [Url.Reader] in
/-- Accounts that are truthful one by one are so together. -/
theorem truthful_flatMap {owned : Bool} {uses : List Use} {accounts : List Account}
    (hfits : List.Forall₂ (Account.Fits owned) uses accounts) :
    Truthful (accounts.flatMap Account.entries) (accounts.flatMap Account.log) := by
  induction hfits with
  | nil => exact .nil
  | cons hfirst _ ih => exact hfirst.truthful.append hfirst.idle ih

/-- A run of uses. -/
def actions (uses : List Use) : List SessionAction :=
  uses.map fun use => (Handling.use use).action

theorem run_actions (connection : Connection σ) (uses : List Use) :
    ∃ results, (Session.ofConnection connection).run (actions uses) =
      ⟨Session.ofConnection (connection.afterAll uses), results,
        (connection.accounts uses).flatMap Account.log, []⟩ := by
  induction uses generalizing connection with
  | nil => exact ⟨[], rfl⟩
  | cons use rest ih =>
      obtain ⟨result, hstep⟩ := step_use_eq connection use
      obtain ⟨results, hrest⟩ := ih (connection.after use)
      refine ⟨result :: results, ?_⟩
      rw [actions, List.map_cons, Session.run, hstep]
      dsimp only
      rw [← actions, hrest]
      rfl

/-- What a run of uses has to do with the log and the transport, `history` being the run
with a transcript. -/
structure Reported (connection : Connection σ) (uses : List Use)
    (history : History (Observed σ)) : Prop where
  /-- The transcript changes nothing. -/
  faithful : history.through Observed.inner =
    (Session.ofConnection connection).run (actions uses)
  session : history.session = Session.ofConnection (connection.observed.afterAll uses)
  /-- The log of the run tells what is in the transcript of the run. -/
  truthful : Truthful (connection.observed.afterAll uses).wire history.log
  /-- Both are put together from those of each use. -/
  wire : (connection.observed.afterAll uses).wire =
    (connection.accounts uses).flatMap Account.entries
  log : history.log = (connection.accounts uses).flatMap Account.log
  /-- The log of each use tells what is in its transcript, and ends as it should. -/
  each : List.Forall₂ (Account.Fits connection.transport.isSome) uses (connection.accounts uses)

end Connection

end Uses

end KerberosHttp
