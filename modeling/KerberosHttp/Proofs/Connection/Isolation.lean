import KerberosHttp.Proofs.Connection.Call
import KerberosHttp.Transport.Recording

/-!
# Calls do not leak into one another

A connection over a recording transport is used again and again: messages are sent,
answered, refused or fail to connect, and between them the connection is closed.  What
one use leaves behind for the next is nothing but the requests that were recorded and
the failure to connect that has not happened yet.

## Strategy

`RecordingTransport.afterUse` is the transport after one use in closed form, told by
the request that the use sends, if any.  `after_eq` shows that the connection does
that; here every exit of a call is looked at, once.  The closed form for a run of uses,
`RecordingTransport.afterUses`, is then an induction over the run in which no call is
opened any more: after the first use nothing is queued, so all later uses send what
they send with nothing queued before.
-/

namespace KerberosHttp

/-- Something done with a connection that keeps its transport. -/
inductive Use
  | call (request : Soap.Message) (endpoint : String)
  | close

/-- The request that a use sends after some headers were queued: the content type of
the message, its action if it has one, and its content. -/
def Use.request? [Url.Reader] (queued : HeaderMap) : Use → Option RecordedRequest
  | .close => none
  | .call request endpoint =>
    match CallHeaders.ofMime request.mime, Url.parse endpoint with
    | .ok headers, .ok url =>
      some ⟨url, queued ++ ⟨.contentType, headers.contentType⟩ ::
        (headers.soapAction.map (Header.mk .soapAction)).toList, request.content⟩
    | _, _ => none

/-- Whether a use gets as far as connecting. -/
def Use.Connects [Url.Reader] (use : Use) : Prop := (use.request? []).isSome

instance [Url.Reader] (use : Use) : Decidable use.Connects :=
  inferInstanceAs (Decidable ((use.request? []).isSome = true))

namespace Connection

variable {σ : Type} [HttpTransport σ] [Url.Reader]

/-- The connection after a use. -/
def after (connection : Connection σ) : Use → Connection σ
  | .call request endpoint => (connection.call request endpoint).2.1
  | .close => connection.close

/-- The connection after some uses. -/
def afterAll (connection : Connection σ) (uses : List Use) : Connection σ :=
  uses.foldl after connection

end Connection

/-! ## What a use sends -/

namespace Use

variable [Url.Reader] {request : Soap.Message} {endpoint : String}

theorem request?_eq_some {headers : CallHeaders} {url : Url}
    (hheaders : CallHeaders.ofMime request.mime = .ok headers)
    (hparse : Url.parse endpoint = .ok url) (queued : HeaderMap) :
    (call request endpoint).request? queued =
      some ⟨url, queued ++ headers.toList, request.content⟩ := by
  simp only [request?, hheaders, hparse]
  rfl

theorem request?_eq_none (hrefused : Connection.Refused request endpoint) (queued : HeaderMap) :
    (call request endpoint).request? queued = none := by
  rcases hrefused with ⟨violation, hviolation⟩ | ⟨cause, hcause⟩
  · simp only [request?, hviolation]
  · cases hheaders : CallHeaders.ofMime request.mime with
    | error violation => simp only [request?, hheaders]
    | ok headers => simp only [request?, hheaders, hcause]

/-- A call is refused, or its headers and its endpoint are good. -/
theorem refused_or (request : Soap.Message) (endpoint : String) :
    Connection.Refused request endpoint ∨ ∃ headers url,
      CallHeaders.ofMime request.mime = .ok headers ∧ Url.parse endpoint = .ok url := by
  cases hheaders : CallHeaders.ofMime request.mime with
  | error violation => exact .inl (.inl ⟨violation, hheaders⟩)
  | ok headers =>
      cases hparse : Url.parse endpoint with
      | error cause => exact .inl (.inr ⟨cause, hparse⟩)
      | ok url => exact .inr ⟨headers, url, rfl, rfl⟩

end Use

/-! ## One call on a recording transport -/

/-- The transport with one more request kept, and nothing queued. -/
def RecordingTransport.keep (transport : RecordingTransport) (request : RecordedRequest) :
    RecordingTransport :=
  { transport with pending := [], requests := transport.requests ++ [request] }

namespace Connection

variable {version : Soap.Version} {request : Soap.Message} {endpoint : String}

theorem queue_recording (transport : RecordingTransport) (headers : List Header) :
    queue transport headers = { transport with pending := transport.pending ++ headers } := by
  induction headers generalizing transport with
  | nil => simp [queue]
  | cons header rest ih =>
      have hfirst : queue transport (header :: rest) =
          queue { transport with pending := transport.pending ++ [header] } rest := rfl
      rw [hfirst, ih]
      simp

/-- A call that is refused leaves any transport alone, and fails alike on all of them. -/
theorem exchange_of_refused [Url.Reader] {σ τ : Type} [HttpTransport σ] [HttpTransport τ]
    (hrefused : Refused request endpoint) (transport : σ) (other : τ) :
    (exchange version request endpoint transport).transport = transport ∧
      (exchange version request endpoint transport).result =
        (exchange version request endpoint other).result := by
  unfold exchange
  cases hheaders : CallHeaders.ofMime request.mime with
  | error violation => exact ⟨rfl, rfl⟩
  | ok headers =>
      rcases hrefused with ⟨violation, hviolation⟩ | ⟨cause, hcause⟩
      · cases hheaders.symm.trans hviolation
      · rw [hcause]
        exact ⟨rfl, rfl⟩

/-- While it is connected, a recording transport answers by its reply alone. -/
theorem receive_recording (version : Soap.Version) (transport other : RecordingTransport)
    (hconnected : transport.connected = true) (hother : other.connected = true)
    (hreply : other.reply = transport.reply) :
    (receive version transport).transport = transport ∧
      (receive version transport).result = (receive version other).result := by
  have hinput : other.inputStream = transport.inputStream := by
    simp only [RecordingTransport.inputStream, hconnected, hother, hreply]
  have herror : other.errorStream = transport.errorStream := by
    simp only [RecordingTransport.errorStream, hconnected, hother, hreply]
  have hopen : HttpTransport.openInput transport = (transport.inputStream, transport) := rfl
  have hopen' : HttpTransport.openInput other = (transport.inputStream, other) := by
    rw [← hinput]
    rfl
  cases hread : Stream.entity transport.inputStream with
  | ok content =>
      rw [receive_of_ok hopen hread, receive_of_ok hopen' hread]
      exact ⟨rfl, rfl⟩
  | error error =>
      have hentity : HttpTransport.openError transport = (transport.errorStream, transport) := rfl
      have hentity' : HttpTransport.openError other = (transport.errorStream, other) := by
        rw [← herror]
        rfl
      rw [receive_of_error hopen hread hentity, receive_of_error hopen' hread hentity']
      exact ⟨rfl, rfl⟩

theorem connect_recording (transport : RecordingTransport) (headers : List Header) (url : Url)
    (body : Bytes) :
    HttpTransport.connect (queue transport headers) url body =
      let kept := transport.keep ⟨url, transport.pending ++ headers, body⟩
      match transport.connectFailure with
      | some error => (.error error, { kept with connectFailure := none })
      | none => (.ok (), { kept with connected := true }) := by
  rw [queue_recording]
  rfl

/-- A recording transport that is to fail keeps the request and fails once. -/
theorem exchange_of_failure [Url.Reader] {transport : RecordingTransport}
    {headers : CallHeaders} {url : Url} {error : TransportError}
    (hheaders : CallHeaders.ofMime request.mime = .ok headers)
    (hparse : Url.parse endpoint = .ok url) (hfailure : transport.connectFailure = some error) :
    (exchange version request endpoint transport).result = .error (.soap (.transport error)) ∧
      (exchange version request endpoint transport).transport =
        { transport.keep ⟨url, transport.pending ++ headers.toList, request.content⟩ with
          connectFailure := none } := by
  simp only [exchange, hheaders, hparse, send, connect_recording, hfailure]
  exact ⟨rfl, trivial⟩

/-- A recording transport that connects keeps the request and answers as if it were new. -/
theorem exchange_of_success [Url.Reader] {transport : RecordingTransport}
    {headers : CallHeaders} {url : Url}
    (hheaders : CallHeaders.ofMime request.mime = .ok headers)
    (hparse : Url.parse endpoint = .ok url) (hfailure : transport.connectFailure = none) :
    (exchange version request endpoint transport).result =
        (exchange version request endpoint (RecordingTransport.ofReply transport.reply)).result ∧
      (exchange version request endpoint transport).transport =
        { transport.keep ⟨url, transport.pending ++ headers.toList, request.content⟩ with
          connected := true } := by
  have hfresh : (RecordingTransport.ofReply transport.reply).connectFailure = none := rfl
  simp only [exchange, hheaders, hparse, send, connect_recording, hfailure, hfresh]
  refine ⟨?_, (receive_recording version _ _ rfl rfl rfl).1⟩
  -- The two transports differ in what they have kept, which no answer reads.
  have hanswer : ∀ kept kept' : RecordedRequest,
      (receive version { transport.keep kept with connected := true }).result =
        (receive version { (RecordingTransport.ofReply transport.reply).keep kept' with
          connected := true }).result := by
    intro kept kept'
    obtain ⟨-, hresult⟩ := receive_recording version { transport.keep kept with connected := true }
      { (RecordingTransport.ofReply transport.reply).keep kept' with connected := true } rfl rfl rfl
    exact hresult
  rw [hanswer]

end Connection

/-! ## One use -/

/-- The transport after one use. -/
def RecordingTransport.afterUse [Url.Reader] (transport : RecordingTransport) (use : Use) :
    RecordingTransport :=
  { transport with
    pending := []
    requests := transport.requests ++ (use.request? transport.pending).toList
    connectFailure := if use.Connects then none else transport.connectFailure
    connected := false
    disconnects := transport.disconnects + 1 }

namespace Connection

variable [Url.Reader] {version : Soap.Version}

theorem after_call_eq (transport : RecordingTransport) (request : Soap.Message)
    (endpoint : String) :
    (after ⟨some transport, version⟩ (.call request endpoint) : Connection RecordingTransport) =
      ⟨some (HttpTransport.disconnect (exchange version request endpoint transport).transport),
        version⟩ := rfl

/-- A use of a connection does what the closed form says. -/
theorem after_eq (transport : RecordingTransport) (use : Use) :
    (after ⟨some transport, version⟩ use : Connection RecordingTransport) =
      ⟨some (transport.afterUse use), version⟩ := by
  cases use with
  | close =>
      have hnone : ¬ Use.Connects .close := Bool.false_ne_true
      simp [after, close, RecordingTransport.afterUse, Use.request?, hnone]
      rfl
  | call request endpoint =>
      rw [after_call_eq]
      -- A refused call leaves the transport to the disconnect, which drops what is queued.
      rcases Use.refused_or request endpoint with hrefused | ⟨headers, url, hheaders, hparse⟩
      · have hnone := Use.request?_eq_none hrefused
        have hleft : (exchange version request endpoint transport).transport = transport :=
          (exchange_of_refused hrefused transport transport).1
        rw [hleft, RecordingTransport.afterUse]
        simp [Use.Connects, hnone]
        rfl
      · have hsome := Use.request?_eq_some hheaders hparse
        cases hfailure : transport.connectFailure with
        | some error =>
            rw [(exchange_of_failure hheaders hparse hfailure).2, RecordingTransport.afterUse]
            simp [Use.Connects, hsome]
            rfl
        | none =>
            rw [(exchange_of_success hheaders hparse hfailure).2, RecordingTransport.afterUse]
            simp [Use.Connects, hsome, RecordingTransport.keep, HttpTransport.disconnect, hfailure]

/-- A call on a recording transport fails to connect, or has the result that it has on a
new one. -/
theorem call_result (transport : RecordingTransport) (request : Soap.Message)
    (endpoint : String) :
    (call (⟨some transport, version⟩ : Connection RecordingTransport) request endpoint).1 =
      match if (Use.call request endpoint).Connects then transport.connectFailure else none with
      | some error => .error (.soap (.transport error))
      | none =>
        (call (⟨some (.ofReply transport.reply), version⟩ : Connection RecordingTransport) request
          endpoint).1 := by
  have hcall : ∀ other : RecordingTransport,
      (call (⟨some other, version⟩ : Connection RecordingTransport) request endpoint).1 =
        (exchange version request endpoint other).result :=
    fun _ => rfl
  rw [hcall, hcall]
  rcases Use.refused_or request endpoint with hrefused | ⟨headers, url, hheaders, hparse⟩
  · have hnot : ¬ (Use.call request endpoint).Connects := by
      simp [Use.Connects, Use.request?_eq_none hrefused]
    rw [if_neg hnot]
    exact (exchange_of_refused hrefused transport _).2
  · have hconnects : (Use.call request endpoint).Connects := by
      simp [Use.Connects, Use.request?_eq_some hheaders hparse]
    rw [if_pos hconnects]
    cases hfailure : transport.connectFailure with
    | some error => exact (exchange_of_failure hheaders hparse hfailure).1
    | none => exact (exchange_of_success hheaders hparse hfailure).1

end Connection

/-! ## A run of uses -/

namespace RecordingTransport

variable [Url.Reader]

/-- The transport after some uses. -/
def afterUses (transport : RecordingTransport) (uses : List Use) : RecordingTransport :=
  uses.foldl afterUse transport

/-- The requests that some uses send: only the first finds what is queued. -/
def requestsOf (queued : HeaderMap) : List Use → List RecordedRequest
  | [] => []
  | use :: rest => (use.request? queued).toList ++ rest.filterMap (Use.request? [])

theorem reply_afterUses (transport : RecordingTransport) (uses : List Use) :
    (transport.afterUses uses).reply = transport.reply := by
  induction uses generalizing transport with
  | nil => rfl
  | cons use rest ih => exact ih (transport.afterUse use)

/-- After the last use, whatever it is, nothing is queued and nothing connected. -/
theorem idle_afterUses (transport : RecordingTransport) {uses : List Use} (huses : uses ≠ []) :
    (transport.afterUses uses).pending = [] ∧ (transport.afterUses uses).connected = false := by
  obtain ⟨front, last, rfl⟩ := (List.eq_nil_or_concat uses).resolve_left huses
  rw [afterUses, List.concat_eq_append, List.foldl_append]
  exact ⟨rfl, rfl⟩

theorem requestsOf_nil (uses : List Use) :
    requestsOf [] uses = uses.filterMap (Use.request? []) := by
  cases uses with
  | nil => rfl
  | cons use rest =>
      rw [requestsOf, List.filterMap_cons]
      cases use.request? [] <;> rfl

theorem requests_afterUses (transport : RecordingTransport) (uses : List Use) :
    (transport.afterUses uses).requests =
      transport.requests ++ requestsOf transport.pending uses := by
  -- After the first use nothing is queued, so the induction hypothesis is about `[]`.
  induction uses generalizing transport with
  | nil => simp [afterUses, requestsOf]
  | cons use rest ih =>
      calc (transport.afterUses (use :: rest)).requests
          = ((transport.afterUse use).afterUses rest).requests := rfl
        _ = (transport.afterUse use).requests ++ requestsOf [] rest := ih _
        _ = (transport.requests ++ (use.request? transport.pending).toList) ++
              rest.filterMap (Use.request? []) := by rw [requestsOf_nil]; rfl
        _ = transport.requests ++ requestsOf transport.pending (use :: rest) := by
            rw [requestsOf, List.append_assoc]

/-- The failure to connect is used up by the first use that connects. -/
theorem connectFailure_afterUses (transport : RecordingTransport) (uses : List Use) :
    (transport.afterUses uses).connectFailure =
      if ∃ use ∈ uses, use.Connects then none else transport.connectFailure := by
  induction uses generalizing transport with
  | nil => simp [afterUses]
  | cons use rest ih =>
      have hrest : (transport.afterUses (use :: rest)).connectFailure =
          if ∃ use ∈ rest, use.Connects then none else (transport.afterUse use).connectFailure :=
        ih (transport.afterUse use)
      rw [hrest]
      by_cases hfirst : use.Connects
      · simp [afterUse, hfirst]
      · simp [afterUse, hfirst]

end RecordingTransport

namespace Connection

variable [Url.Reader] {version : Soap.Version}

theorem afterAll_eq (transport : RecordingTransport) (uses : List Use) :
    (afterAll ⟨some transport, version⟩ uses : Connection RecordingTransport) =
      ⟨some (transport.afterUses uses), version⟩ := by
  induction uses generalizing transport with
  | nil => rfl
  | cons use rest ih =>
      calc (afterAll ⟨some transport, version⟩ (use :: rest) : Connection RecordingTransport)
          = afterAll (after ⟨some transport, version⟩ use) rest := rfl
        _ = afterAll ⟨some (transport.afterUse use), version⟩ rest := by rw [after_eq]
        _ = ⟨some ((transport.afterUse use).afterUses rest), version⟩ := ih _

/-- **Calls do not leak into one another.**  Whatever was done with a connection over a
recording transport, nothing is queued and nothing connected after it; what was recorded
is one request for each call that connects, of that call alone but for the headers that
were queued before the first use; and the next call has the result that it has on a new
transport with the same reply, unless it is the first to connect and is to fail. -/
theorem uses_isolated (transport : RecordingTransport) (version : Soap.Version)
    (uses : List Use) :
    ∃ left : RecordingTransport,
      afterAll ⟨some transport, version⟩ uses = ⟨some left, version⟩ ∧
      (uses = [] ∨ left.pending = [] ∧ left.connected = false) ∧
      left.requests =
        transport.requests ++ RecordingTransport.requestsOf transport.pending uses ∧
      ∀ request endpoint,
        (call (⟨some left, version⟩ : Connection RecordingTransport) request endpoint).1 =
          match
            if (Use.call request endpoint).Connects ∧ ∀ use ∈ uses, ¬ use.Connects then
              transport.connectFailure
            else none with
          | some error => .error (.soap (.transport error))
          | none =>
            (call (⟨some (.ofReply transport.reply), version⟩ : Connection RecordingTransport)
              request endpoint).1 := by
  refine ⟨transport.afterUses uses, afterAll_eq transport uses, ?_, ?_, ?_⟩
  · by_cases hnil : uses = []
    · exact .inl hnil
    · exact .inr (transport.idle_afterUses hnil)
  · exact transport.requests_afterUses uses
  · intro request endpoint
    rw [call_result, transport.reply_afterUses, transport.connectFailure_afterUses]
    -- The failure is still to come exactly if no use before has connected.
    have hhit : (if (Use.call request endpoint).Connects then
          if ∃ use ∈ uses, use.Connects then none else transport.connectFailure
        else none) =
        if (Use.call request endpoint).Connects ∧ ∀ use ∈ uses, ¬ use.Connects then
          transport.connectFailure
        else none := by
      by_cases hused : ∃ use ∈ uses, use.Connects
      · have hnot : ¬ ∀ use ∈ uses, ¬ use.Connects := by
          obtain ⟨use, hmem, hconnects⟩ := hused
          intro hall
          exact hall use hmem hconnects
        rw [if_pos hused, ite_self, if_neg fun hboth => hnot hboth.2]
      · have hall : ∀ use ∈ uses, ¬ use.Connects := by
          intro use hmem hconnects
          exact hused ⟨use, hmem, hconnects⟩
        rw [if_neg hused]
        by_cases hconnects : (Use.call request endpoint).Connects
        · rw [if_pos hconnects, if_pos ⟨hconnects, hall⟩]
        · rw [if_neg hconnects, if_neg fun hboth => hconnects hboth.1]
    rw [hhit]

end Connection

end KerberosHttp
