import KerberosHttp.Proofs.Connection.Call
import KerberosHttp.Transport.Recording
import KerberosHttp.Url.Ascii

/-!
# A password in an address

The address of a call may name a user and a password, and a call reports the address that
it sends to.  So the log of a call shows the password, wherever it shows the address, and
shows it nowhere else, unless the transport itself says something that depends on it.

## Strategy

What stands around the password in an address can be cancelled, so two addresses that are
the same but for it are shown alike only if it is the same too (`Url.render_eq_iff`).  A
transport is `Blind` to the password if it goes on in the same way whichever of them it
connects to; then so does the call (`Simulates.exchange`), and what is left of the log
without the password is the same.
-/

namespace KerberosHttp

/-! ## Addresses -/

namespace Url

/-- The address with another password, or with none. -/
def withPassword (url : Url) (password : Option String) : Url :=
  { url with authority := url.authority.map fun authority => { authority with password } }

def withoutPassword (url : Url) : Url := url.withPassword none

def password? (url : Url) : Option String := url.authority.bind (·.password)

variable {url url' : Url}

theorem eq_withPassword (hsame : url.withoutPassword = url'.withoutPassword) :
    url' = url.withPassword url'.password? := by
  obtain ⟨scheme, authority, path, query, fragment⟩ := url
  obtain ⟨scheme', authority', path', query', fragment'⟩ := url'
  cases authority with
  | none =>
      cases authority' with
      | none => exact hsame.symm
      | some authority' => simp [withoutPassword, withPassword] at hsame
  | some authority =>
      cases authority' with
      | none => simp [withoutPassword, withPassword] at hsame
      | some authority' =>
          obtain ⟨username, password, host, port⟩ := authority
          obtain ⟨username', password', host', port'⟩ := authority'
          simp only [withoutPassword, withPassword, Option.map_some, Url.mk.injEq,
            Option.some.injEq, Authority.mk.injEq] at hsame
          simp [withPassword, password?, hsame]

theorem eq_of_password? (hsame : url.withoutPassword = url'.withoutPassword)
    (hpassword : url.password? = url'.password?) : url = url' := by
  calc url
      = url.withPassword url.password? := eq_withPassword rfl
    _ = url.withPassword url'.password? := by rw [hpassword]
    _ = url' := (eq_withPassword hsame).symm

/-- What is shown of a user tells the password, the name being known. -/
theorem Authority.renderUser_inj {authority : Authority} {password password' : Option String}
    (hrender : renderUser { authority with password } =
      renderUser { authority with password := password' }) : password = password' := by
  -- After the name there is one sign at most, unless there is a password.
  have hnone : ∀ text : String, (authority.username ++ ":" ++ text ++ "@").toList ≠
      (if authority.username = "" then "" else authority.username ++ "@").toList := by
    intro text heq
    have hlength := congrArg List.length heq
    split at hlength
    · simp at hlength
    · simp at hlength
  cases password with
  | none =>
      cases password' with
      | none => rfl
      | some text => exact absurd (congrArg String.toList hrender.symm) (hnone text)
  | some text =>
      cases password' with
      | none => exact absurd (congrArg String.toList hrender) (hnone text)
      | some text' => simpa [renderUser, ← String.toList_inj] using hrender

theorem render_withPassword_inj {authority : Authority}
    (hauthority : url.authority = some authority) {password password' : Option String}
    (hrender : (url.withPassword password).render = (url.withPassword password').render) :
    password = password' := by
  simp [render, withPassword, hauthority, Authority.render, Authority.renderPort,
    ← String.toList_inj] at hrender
  exact Authority.renderUser_inj (String.toList_inj.mp hrender)

/-- Two addresses that are the same but for the password are shown alike exactly if they
have the same one. -/
theorem render_eq_iff (hsame : url.withoutPassword = url'.withoutPassword) :
    url.render = url'.render ↔ url.password? = url'.password? := by
  have hfirst : url = url.withPassword url.password? := eq_withPassword rfl
  have hsecond := eq_withPassword hsame
  constructor
  · intro hrender
    cases hauthority : url.authority with
    | none =>
        have hequal : url' = url := by
          rw [hsecond, withPassword, hauthority, Option.map_none, ← hauthority]
        rw [hequal]
    | some authority =>
        rw [hfirst, hsecond] at hrender
        exact render_withPassword_inj hauthority hrender
  · intro hpassword
    rw [eq_of_password? hsame hpassword]

end Url

namespace LogEvent

/-- The event with no password in its address. -/
def withoutPassword : LogEvent → LogEvent
  | sendingRequest endpoint contentType soapAction bodyLength =>
    sendingRequest endpoint.withoutPassword contentType soapAction bodyLength
  | connectFailed endpoint error => connectFailed endpoint.withoutPassword error
  | event => event

/-- All that is shown of an event. -/
def shown (event : LogEvent) : LogLevel × String × List (String × LogValue) :=
  (event.level, event.message, event.fields)

end LogEvent

/-! ## Transports that a password makes no difference to -/

/-- A transport that cannot tell two addresses apart if they differ in nothing but the
password. -/
def Blind {σ : Type} [HttpTransport σ] (alike : σ → σ → Prop) : Prop :=
  Simulates alike fun url url' => url.withoutPassword = url'.withoutPassword

/-- Of an event without its password no difference in the password is seen. -/
theorem hides_withoutPassword :
    Hides (fun url url' => url.withoutPassword = url'.withoutPassword)
      LogEvent.withoutPassword where
  sending hsame _ _ := by simp [Connection.sending, LogEvent.withoutPassword, hsame]
  connectFailed hsame _ := by simp [LogEvent.withoutPassword, hsame]

/-- Two recording transports that differ in the requests they have kept, if in anything. -/
def RecordingTransport.SameButRequests (transport other : RecordingTransport) : Prop :=
  ∃ requests, other = { transport with requests := requests }

/-- A recording transport keeps the address it connects to and does not look at it. -/
theorem RecordingTransport.blind : Blind RecordingTransport.SameButRequests where
  addHeader := by
    rintro transport _ ⟨requests, rfl⟩ header
    exact ⟨requests, rfl⟩
  connect := by
    rintro transport _ ⟨requests, rfl⟩ url url' - body
    simp only [HttpTransport.connect]
    cases transport.connectFailure with
    | none => exact ⟨rfl, _, rfl⟩
    | some error => exact ⟨rfl, _, rfl⟩
  openInput := by
    rintro transport _ ⟨requests, rfl⟩
    exact ⟨rfl, requests, rfl⟩
  openError := by
    rintro transport _ ⟨requests, rfl⟩
    exact ⟨rfl, requests, rfl⟩

/-! ## The log of a call -/

namespace Connection

section AnyReader

variable {σ : Type} [HttpTransport σ] [Url.Reader] {request : Soap.Message} {first second : String}
  {url url' : Url}

/-- What a call reports first, if it gets as far as sending, is where it sends to. -/
theorem log_exchange_eq (version : Soap.Version) {headers : CallHeaders}
    (hheaders : CallHeaders.ofMime request.mime = .ok headers)
    (hparse : Url.parse first = .ok url) (transport : σ) :
    ∃ later, (exchange version request first transport).log =
      sending request headers url :: later := by
  simp only [exchange, hheaders, hparse, send]
  rcases HttpTransport.connect (queue transport headers.toList) url request.content with
    ⟨result, after⟩
  cases result with
  | error error => exact ⟨_, rfl⟩
  | ok _ => exact ⟨_, rfl⟩

omit [Url.Reader] in
/-- What is shown of the sending of a request tells the address as it is shown. -/
theorem render_eq_of_shown {headers : CallHeaders}
    (hshown : (sending request headers url).shown = (sending request headers url').shown) :
    url.render = url'.render := by
  simp [sending, LogEvent.shown, LogEvent.level, LogEvent.message, LogEvent.fields] at hshown
  exact hshown

theorem shown_exchange_iff (version : Soap.Version) (hfirst : Url.parse first = .ok url)
    (hsecond : Url.parse second = .ok url') (hsame : url.withoutPassword = url'.withoutPassword)
    (transport : σ) :
    (exchange version request first transport).log.map LogEvent.shown =
        (exchange version request second transport).log.map LogEvent.shown ↔
      (∃ violation, CallHeaders.ofMime request.mime = .error violation) ∨
        url.password? = url'.password? := by
  cases hheaders : CallHeaders.ofMime request.mime with
  | error violation => simp [exchange, hheaders]
  | ok headers =>
      constructor
      · intro hshown
        obtain ⟨later, hlog⟩ := log_exchange_eq version hheaders hfirst transport
        obtain ⟨later', hlog'⟩ := log_exchange_eq version hheaders hsecond transport
        rw [hlog, hlog', List.map_cons, List.map_cons] at hshown
        have hrender := render_eq_of_shown (List.head_eq_of_cons_eq hshown)
        exact .inr ((Url.render_eq_iff hsame).mp hrender)
      · rintro (⟨violation, hviolation⟩ | hpassword)
        · cases hviolation
        · obtain rfl := Url.eq_of_password? hsame hpassword
          simp only [exchange, hheaders, hfirst, hsecond]

/-- **The log shows a password in an address.**  Take two addresses that are the same but
for the password.  The logs of two calls to them show the same only if the password is the
same too, unless nothing is sent at all, because there is no transport or a header of the
message cannot be sent.  But the address is all that shows it: if the transport treats the
two alike, the calls have the same result, and their logs are the same with the password
left out of the address. -/
theorem call_shows_password (connection : Connection σ) (request : Soap.Message)
    {first second : String} {url url' : Url}
    (hfirst : Url.parse first = .ok url) (hsecond : Url.parse second = .ok url')
    (hsame : url.withoutPassword = url'.withoutPassword) :
    ((connection.call request first).2.2.map LogEvent.shown =
        (connection.call request second).2.2.map LogEvent.shown ↔
      connection.transport = none ∨
      (∃ violation, CallHeaders.ofMime request.mime = .error violation) ∨
      url.password? = url'.password?) ∧
    ∀ alike : σ → σ → Prop, Blind alike →
      (∀ transport, connection.transport = some transport → alike transport transport) →
      (connection.call request first).1 = (connection.call request second).1 ∧
      (connection.call request first).2.2.map LogEvent.withoutPassword =
        (connection.call request second).2.2.map LogEvent.withoutPassword := by
  obtain ⟨transport, version⟩ := connection
  cases transport with
  | none => simp [call]
  | some transport =>
      refine ⟨?_, ?_⟩
      · rw [← shown_exchange_iff version hfirst hsecond hsame transport]
        simp [call]
      · intro alike hblind halike
        obtain ⟨hresult, -, hlog⟩ :=
          Simulates.exchange hblind (halike transport rfl) hides_withoutPassword hfirst hsecond
            hsame version request
        exact ⟨hresult, by simp [call, hlog]⟩

end AnyReader

/-- Two passwords in the address of a recording transport: the logs differ, and do not
differ without them. -/
theorem call_shows_password_recording :
    let connection := ofTransport (RecordingTransport.ofReply (.success []))
    (connection.call .bare "https://svc:a@host/").2.2.map LogEvent.shown ≠
      (connection.call .bare "https://svc:b@host/").2.2.map LogEvent.shown ∧
    (connection.call .bare "https://svc:a@host/").2.2.map LogEvent.withoutPassword =
      (connection.call .bare "https://svc:b@host/").2.2.map LogEvent.withoutPassword := by
  intro connection
  let url (password : String) : Url :=
    ⟨"https", some ⟨"svc", some password, .name "host", none⟩, .segments [""], none, none⟩
  have hfirst : Url.parse "https://svc:a@host/" = .ok (url "a") := rfl
  have hsecond : Url.parse "https://svc:b@host/" = .ok (url "b") := rfl
  obtain ⟨hshown, hblind⟩ := call_shows_password connection .bare hfirst hsecond rfl
  refine ⟨?_, (hblind _ RecordingTransport.blind ?_).2⟩
  · intro hsame
    rcases hshown.mp hsame with hnone | ⟨violation, hviolation⟩ | hpassword
    · cases hnone
    · cases hviolation
    · exact absurd hpassword (by decide)
  · rintro transport -
    exact ⟨transport.requests, rfl⟩

end Connection

end KerberosHttp
