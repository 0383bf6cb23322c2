import KerberosHttp.Proofs.Connection.Protocol
import KerberosHttp.Proofs.Connection.Result

/-!
# Which headers a call sends

The two headers of a call come from the MIME headers of its message, which anyone may have
put there in any number, any spelling and any order.  What comes of them is settled by the
first of these that applies:

```text
two content types or more                      duplicate content type
one, which cannot be sent                      invalid content type
two actions or more                            duplicate action
one, which cannot be sent                      invalid action
otherwise                                      the content type, or the default that fits,
                                               and the action if there is one
```

## Strategy

Both headers are read by `singleValue`, so what it makes of the values of a name is said
once, for its failures (`singleValue_eq_error_iff`) and for its results
(`singleValue_eq_ok_iff_fits`).  `Negotiates` is the table, with one constructor for each
line.  It speaks of octets and not of `HeaderValue`, so that nothing in it rests on what that
type promises.

## Main statement

* `ofMime_iff_negotiates`: a message gets its headers, or none, as the table says, and what a
  call queues on its transport holds no control.
-/

namespace KerberosHttp

/-- The octets that may not stand in a header: the controls but the tab. -/
def IsControl (octet : UInt8) : Prop := octet < 32 ∧ octet ≠ 9 ∨ octet = 127

/-- A text that no header can carry. -/
def Unsendable (text : String) : Prop := ∃ octet ∈ Utf8.encode text, IsControl octet

instance (octet : UInt8) : Decidable (IsControl octet) :=
  inferInstanceAs (Decidable (_ ∨ _))

instance (text : String) : Decidable (Unsendable text) :=
  inferInstanceAs (Decidable (∃ octet ∈ Utf8.encode text, IsControl octet))

theorem isSendable_iff {octet : UInt8} : isSendable octet = true ↔ ¬ IsControl octet := by
  unfold isSendable IsControl
  rw [Bool.or_eq_true, Bool.and_eq_true, beq_iff_eq, decide_eq_true_eq, bne_iff_ne, not_or,
    Decidable.not_and_iff_not_or_not, UInt8.not_lt, Decidable.not_not]
  constructor
  · rintro (rfl | ⟨hlarge, hother⟩)
    · decide
    · exact ⟨.inl hlarge, hother⟩
  · rintro ⟨hlarge | htab, hother⟩
    · exact .inr ⟨hlarge, hother⟩
    · exact .inl htab

namespace HeaderValue

/-- What a value holds is all there is to it. -/
theorem content_inj {first second : HeaderValue} :
    first.content = second.content ↔ first = second := by
  obtain ⟨content, hsendable⟩ := first
  obtain ⟨content', hsendable'⟩ := second
  rw [mk.injEq]

theorem not_isControl (value : HeaderValue) {octet : UInt8} (hmem : octet ∈ value.content) :
    ¬ IsControl octet :=
  isSendable_iff.mp (List.all_eq_true.mp value.sendable octet hmem)

theorem all_isSendable_iff {text : String} :
    (Utf8.encode text).all isSendable = true ↔ ¬ Unsendable text := by
  rw [List.all_eq_true, Unsendable, not_exists]
  simp only [isSendable_iff, not_and]

/-- A text is a value exactly if it can be sent, and then octet for octet. -/
theorem ofString?_eq_some_iff {text : String} {value : HeaderValue} :
    ofString? text = some value ↔ ¬ Unsendable text ∧ value.content = Utf8.encode text := by
  unfold ofString? ofBytes?
  split
  · next hall =>
      obtain ⟨content, hsendable⟩ := value
      have hfits := all_isSendable_iff.mp hall
      simp [hfits, eq_comm]
  · next hnot =>
      refine iff_of_false nofun ?_
      rintro ⟨hfits, -⟩
      exact hnot (all_isSendable_iff.mpr hfits)

theorem ofString?_eq_none_iff {text : String} : ofString? text = none ↔ Unsendable text := by
  unfold ofString? ofBytes?
  split
  · next hall => exact iff_of_false nofun (all_isSendable_iff.mp hall)
  · next hnot => exact iff_of_true rfl (Decidable.not_not.mp (mt all_isSendable_iff.mpr hnot))

end HeaderValue

namespace CallHeaders

/-! ## The table -/

/-- A name has too many values. -/
def duplicated (kind : ViolationKind) (name : String) : Violation :=
  ⟨kind, name ++ " defined more than once"⟩

/-- The one value of a name cannot be sent. -/
def unsendable (name : String) : Violation :=
  ⟨.invalidValue name, name ++ " value cannot be sent as an HTTP header"⟩

/-- The values of a name are none, or one that can be sent. -/
def Fits (values : List String) : Prop :=
  values = [] ∨ ∃ value, values = [value] ∧ ¬ Unsendable value

/-- The first value of a name is sent, octet for octet, and nothing without one. -/
def Sends (values : List String) (value : Option HeaderValue) : Prop :=
  value.map (·.content) = values.head?.map Utf8.encode

/-- The content type that is sent, octet for octet. -/
def chosenType : List String → List String → Bytes
  | contentType :: _, _ => Utf8.encode contentType
  | [], _ :: _ => Bytes.ofAscii (Soap.Version.contentType .v1_1)
  | [], [] => Bytes.ofAscii (Soap.Version.contentType .v1_2)

/-- What comes of the values of the two names. -/
inductive Negotiates (contentTypes actions : List String) : Except Violation CallHeaders → Prop
  | duplicateContentType (hmany : 2 ≤ contentTypes.length) :
      Negotiates contentTypes actions (.error (duplicated .duplicateContentType "Content-Type"))
  | unsendableContentType {contentType : String} (hone : contentTypes = [contentType])
      (hcontrol : Unsendable contentType) :
      Negotiates contentTypes actions (.error (unsendable "Content-Type"))
  | duplicateSoapAction (htypes : Fits contentTypes) (hmany : 2 ≤ actions.length) :
      Negotiates contentTypes actions (.error (duplicated .duplicateSoapAction "SOAPAction"))
  | unsendableSoapAction {action : String} (htypes : Fits contentTypes) (hone : actions = [action])
      (hcontrol : Unsendable action) :
      Negotiates contentTypes actions (.error (unsendable "SOAPAction"))
  | sent {headers : CallHeaders} (htypes : Fits contentTypes) (hactions : Fits actions)
      (htype : headers.contentType.content = chosenType contentTypes actions)
      (haction : Sends actions headers.soapAction) :
      Negotiates contentTypes actions (.ok headers)

theorem sends_nil_iff {value : Option HeaderValue} : Sends [] value ↔ value = none :=
  Option.map_eq_none_iff

theorem sends_cons_iff {text : String} {others : List String} {value : Option HeaderValue} :
    Sends (text :: others) value ↔ ∃ sent, value = some sent ∧ sent.content = Utf8.encode text :=
  Option.map_eq_some_iff

/-! ## One name -/

section SingleValue

variable {mime : Soap.MimeHeaders} {name : String} {duplicate : ViolationKind}

/-- A name is refused for the number of its values, or else for its one value. -/
theorem singleValue_eq_error_iff {violation : Violation} :
    singleValue mime name duplicate = .error violation ↔
      (2 ≤ (mime.values name).length ∧ violation = duplicated duplicate name) ∨
        ∃ value, mime.values name = [value] ∧ Unsendable value ∧ violation = unsendable name := by
  unfold singleValue
  match mime.values name with
  | [] => simp
  | [value] =>
      cases hvalue : HeaderValue.ofString? value with
      | none =>
          have hcontrol : Unsendable value := HeaderValue.ofString?_eq_none_iff.mp hvalue
          simp [hcontrol, unsendable, hvalue, eq_comm]
      | some sent =>
          have hfits : ¬ Unsendable value := (HeaderValue.ofString?_eq_some_iff.mp hvalue).1
          simp [hfits, hvalue]
  | _ :: _ :: _ => simp [duplicated, eq_comm]

/-- A name that is not refused sends its value, if it has one. -/
theorem singleValue_eq_ok_iff_fits {value : Option HeaderValue} :
    singleValue mime name duplicate = .ok value ↔
      Fits (mime.values name) ∧ Sends (mime.values name) value := by
  rw [singleValue_eq_ok_iff]
  constructor
  · rintro (⟨hnone, rfl⟩ | ⟨text, sent, hone, hsent, rfl⟩)
    · rw [hnone]
      exact ⟨.inl rfl, rfl⟩
    · obtain ⟨hfits, hcontent⟩ := HeaderValue.ofString?_eq_some_iff.mp hsent
      rw [hone]
      exact ⟨.inr ⟨text, rfl, hfits⟩, sends_cons_iff.mpr ⟨sent, rfl, hcontent⟩⟩
  · rintro ⟨hnone | ⟨text, hone, hfits⟩, hsends⟩
    · rw [hnone] at hsends
      exact .inl ⟨hnone, sends_nil_iff.mp hsends⟩
    · rw [hone] at hsends
      obtain ⟨sent, rfl, hsent⟩ := sends_cons_iff.mp hsends
      exact .inr ⟨text, sent, hone, HeaderValue.ofString?_eq_some_iff.mpr ⟨hfits, hsent⟩, rfl⟩

end SingleValue

/-! ## Both names -/

variable {mime : Soap.MimeHeaders}

/-- The content type is looked at first. -/
theorem ofMime_eq_error_iff {violation : Violation} :
    ofMime mime = .error violation ↔
      singleValue mime "Content-Type" .duplicateContentType = .error violation ∨
        ∃ contentType,
          singleValue mime "Content-Type" .duplicateContentType = .ok contentType ∧
          singleValue mime "SOAPAction" .duplicateSoapAction = .error violation := by
  unfold ofMime
  cases singleValue mime "Content-Type" .duplicateContentType with
  | error first => simp [bind, Except.bind]
  | ok contentType =>
      cases singleValue mime "SOAPAction" .duplicateSoapAction with
      | error second => simp [bind, Except.bind]
      | ok action => simp [bind, Except.bind, pure, Except.pure]

theorem fits_iff_exists_singleValue {name : String} {duplicate : ViolationKind} :
    Fits (mime.values name) ↔ ∃ value, singleValue mime name duplicate = .ok value := by
  constructor
  · rintro (hnone | ⟨text, hone, hfits⟩)
    · exact ⟨none, singleValue_eq_ok_iff.mpr (.inl ⟨hnone, rfl⟩)⟩
    · cases hsent : HeaderValue.ofString? text with
      | none => exact absurd (HeaderValue.ofString?_eq_none_iff.mp hsent) hfits
      | some sent => exact ⟨some sent, singleValue_eq_ok_iff.mpr (.inr ⟨_, _, hone, hsent, rfl⟩)⟩
  · rintro ⟨value, hvalue⟩
    exact (singleValue_eq_ok_iff_fits.mp hvalue).1

theorem error_iff_negotiates {violation : Violation} :
    ofMime mime = .error violation ↔
      Negotiates (mime.values "Content-Type") (mime.values "SOAPAction") (.error violation) := by
  rw [ofMime_eq_error_iff, singleValue_eq_error_iff, singleValue_eq_error_iff, exists_and_right,
    ← fits_iff_exists_singleValue]
  constructor
  · rintro ((⟨hmany, rfl⟩ | ⟨value, hone, hcontrol, rfl⟩) |
      ⟨htypes, ⟨hmany, rfl⟩ | ⟨value, hone, hcontrol, rfl⟩⟩)
    · exact .duplicateContentType hmany
    · exact .unsendableContentType hone hcontrol
    · exact .duplicateSoapAction htypes hmany
    · exact .unsendableSoapAction htypes hone hcontrol
  · intro hnegotiates
    cases hnegotiates with
    | duplicateContentType hmany => exact .inl (.inl ⟨hmany, rfl⟩)
    | unsendableContentType hone hcontrol => exact .inl (.inr ⟨_, hone, hcontrol, rfl⟩)
    | duplicateSoapAction htypes hmany => exact .inr ⟨htypes, .inl ⟨hmany, rfl⟩⟩
    | unsendableSoapAction htypes hone hcontrol =>
        exact .inr ⟨htypes, .inr ⟨_, hone, hcontrol, rfl⟩⟩

/-- What is sent as the content type, with the default that fits. -/
theorem content_getD {contentTypes actions : List String} {contentType action : Option HeaderValue}
    (htype : Sends contentTypes contentType) (haction : Sends actions action) :
    (contentType.getD (defaultContentType (if action.isSome then .v1_1 else .v1_2))).content =
      chosenType contentTypes actions := by
  match contentTypes, actions with
  | text :: _, _ =>
      obtain ⟨sent, rfl, hsent⟩ := sends_cons_iff.mp htype
      exact hsent
  | [], text :: _ =>
      obtain rfl := sends_nil_iff.mp htype
      obtain ⟨sent, rfl, -⟩ := sends_cons_iff.mp haction
      rfl
  | [], [] =>
      obtain rfl := sends_nil_iff.mp htype
      obtain rfl := sends_nil_iff.mp haction
      rfl

theorem ok_iff_negotiates {headers : CallHeaders} :
    ofMime mime = .ok headers ↔
      Negotiates (mime.values "Content-Type") (mime.values "SOAPAction") (.ok headers) := by
  rw [ofMime_eq_ok_iff]
  constructor
  · rintro ⟨contentType, htype, haction, hsent⟩
    obtain ⟨htypes, htype⟩ := singleValue_eq_ok_iff_fits.mp htype
    obtain ⟨hactions, haction⟩ := singleValue_eq_ok_iff_fits.mp haction
    exact .sent htypes hactions (hsent ▸ content_getD htype haction) haction
  · intro hnegotiates
    cases hnegotiates with
    | sent htypes hactions htype haction =>
        obtain ⟨contentType, hsingle⟩ := fits_iff_exists_singleValue.mp htypes
        obtain ⟨-, hvalue⟩ := singleValue_eq_ok_iff_fits.mp hsingle
        refine ⟨contentType, hsingle, singleValue_eq_ok_iff_fits.mpr ⟨hactions, haction⟩, ?_⟩
        rw [← HeaderValue.content_inj, htype, content_getD hvalue haction]

end CallHeaders

/-! ## What is queued -/

namespace Connection

variable {σ : Type} [HttpTransport σ] [Url.Reader] {request : Soap.Message} {endpoint : String}

/-- A call queues the headers of its message and no others. -/
theorem CallShape.mem_headers {transport : σ} {operations : List Operation} {header : Header}
    (hshape : CallShape request endpoint transport operations)
    (hmem : .addHeader header ∈ operations) :
    ∃ headers, CallHeaders.ofMime request.mime = .ok headers ∧ header ∈ headers.toList := by
  have hadded : ∀ {headers : CallHeaders}, .addHeader header ∈ additions headers →
      header ∈ headers.toList := by
    intro headers hmem
    rw [← additions_eq, List.mem_map] at hmem
    obtain ⟨queued, hqueued, hsame⟩ := hmem
    cases hsame
    exact hqueued
  cases hshape with
  | refused => simp at hmem
  | unconnected hconnects => exact ⟨_, hconnects.negotiate, hadded (by simpa using hmem)⟩
  | answered hconnects => exact ⟨_, hconnects.negotiate, hadded (by simpa using hmem)⟩
  | fellBack hconnects => exact ⟨_, hconnects.negotiate, hadded (by simpa using hmem)⟩

/-- What the record of a transport gains by a call. -/
theorem call_record {connection : Connection (Traced σ)} {transport : Traced σ}
    (howned : connection.transport = some transport) :
    ∃ after added, (connection.call request endpoint).2.1.transport =
        some ⟨after, transport.operations ++ added⟩ ∧
      CallShape request endpoint transport.inner added := by
  have hdone := exchanges_exchange connection.responseVersion request endpoint transport
  obtain ⟨added, hshape, hoperations⟩ := hdone.shape
  obtain ⟨-, hafter⟩ := call_of_exchanges howned hdone
  rw [Traced.disconnect_eq, hoperations] at hafter
  exact ⟨_, added, hafter, hshape⟩

end Connection

/-- **The headers of a call.**  What comes of the headers of a message is what the table says
of the values of the two names, and nothing else in the headers counts: neither those of
other names, nor how a name is spelled, nor which name comes first.  On any transport, a
call queues the headers that came of it and no others, and they hold no control. -/
theorem CallHeaders.ofMime_iff_negotiates (mime : Soap.MimeHeaders) :
    (∀ result, ofMime mime = result ↔
      Negotiates (mime.values "Content-Type") (mime.values "SOAPAction") result) ∧
    (∀ other : Soap.MimeHeaders, other.values "Content-Type" = mime.values "Content-Type" →
      other.values "SOAPAction" = mime.values "SOAPAction" → ofMime other = ofMime mime) ∧
    ∀ {σ : Type} [HttpTransport σ] [Url.Reader] (connection : Connection (Traced σ))
      (transport : Traced σ) (request : Soap.Message) (endpoint : String),
        connection.transport = some transport → request.mime = mime →
        ∃ after added, (connection.call request endpoint).2.1.transport =
            some ⟨after, transport.operations ++ added⟩ ∧
          ∀ header, .addHeader header ∈ added →
            (∃ headers, ofMime mime = .ok headers ∧ header ∈ headers.toList) ∧
              ∀ octet ∈ header.value.content, ¬ IsControl octet := by
  have htable : ∀ (mime : Soap.MimeHeaders) result, ofMime mime = result ↔
      Negotiates (mime.values "Content-Type") (mime.values "SOAPAction") result := by
    intro mime result
    cases result with
    | error violation => exact error_iff_negotiates
    | ok headers => exact ok_iff_negotiates
  refine ⟨htable mime, ?_, ?_⟩
  · intro other htypes hactions
    rw [htable, htypes, hactions, ← htable]
  · intro σ _ _ connection transport request endpoint howned hmime
    subst hmime
    obtain ⟨after, added, hafter, hshape⟩ := Connection.call_record howned
    refine ⟨after, added, hafter, ?_⟩
    intro header hmem
    exact ⟨hshape.mem_headers hmem, fun octet => header.value.not_isControl⟩

/-- A message with an action and no content type. -/
private def actingMessage : Soap.Message :=
  { Soap.Message.bare with mime := ⟨[⟨"SOAPACTION", "urn:a"⟩]⟩ }

private def observedConnection : Connection (Traced RecordingTransport) :=
  .ofTransport (Traced.ofInner (.ofReply (.broken [])))

/-- Two lists that differ in the spelling and the order of their names and in a header of
another name, a line break in an action, and an action alone. -/
theorem CallHeaders.ofMime_iff_negotiates_respelled :
    ofMime ⟨[⟨"soapaction", "urn:a"⟩, ⟨"X-Trace", "\r\n"⟩, ⟨"CONTENT-type", "text/xml"⟩]⟩ =
        ofMime ⟨[⟨"Content-Type", "text/xml"⟩, ⟨"SOAPAction", "urn:a"⟩]⟩ ∧
      ofMime ⟨[⟨"SOAPAction", "urn:a\r\nX-Role: admin"⟩]⟩ = .error (unsendable "SOAPAction") ∧
      ∃ after added,
        (observedConnection.call actingMessage "https://host/").2.1.transport =
          some ⟨after, added⟩ ∧
        .addHeader ⟨.contentType, defaultContentType .v1_1⟩ ∈ added ∧
        ∀ header, .addHeader header ∈ added →
          ∀ octet ∈ header.value.content, ¬ IsControl octet := by
  refine ⟨(ofMime_iff_negotiates _).2.1 _ (by decide) (by decide), ?_, ?_⟩
  · have hcontrol : Unsendable "urn:a\r\nX-Role: admin" := by decide
    exact ((ofMime_iff_negotiates _).1 _).mpr (.unsendableSoapAction (.inl rfl) rfl hcontrol)
  · obtain ⟨after, added, hafter, hadded⟩ := (ofMime_iff_negotiates _).2.2 observedConnection _
      actingMessage "https://host/" rfl rfl
    refine ⟨after, added, hafter, ?_, fun header hmem => (hadded header hmem).2⟩
    have hqueued : .addHeader ⟨.contentType, defaultContentType .v1_1⟩ ∈
        ((observedConnection.call actingMessage "https://host/").2.1.transport.map
          Traced.operations).getD [] := by
      decide +kernel
    rw [hafter] at hqueued
    exact hqueued

end KerberosHttp
