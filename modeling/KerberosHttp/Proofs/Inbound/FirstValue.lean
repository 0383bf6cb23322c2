import KerberosHttp.Proofs.Inbound.View

/-!
# Only the first value speaks

The answers of a view depend on its principal and on three things that the request shows:
the first `Authorization` value, and what the request itself reports of its authentication and
its user.  Nothing else of the request can make a view answer differently, so nobody who adds
headers behind the first value presents one scheme to the negotiation and another to the
application.

## Strategy

The requests need not be of one kind, so the comparison is of what they show (`Agree`).  The
scheme is the only answer that is computed from a header, and `RequestView.authScheme_of_some`
and `RequestView.authScheme_of_none` say what it is by the first value alone.  Of that value
only its start counts: `AuthScheme.Names` is about prefixes, and a prefix of a value is one of
every longer value.

## Main statement

* `first_value_speaks`: views of requests that agree answer alike, and how they answer.
-/

namespace KerberosHttp

/-! ## The scheme that a value names -/

namespace AuthScheme

/-- A value names the scheme whose token it begins with. -/
inductive Names (value : Bytes) : AuthScheme → Prop
  | negotiate (hstart : Bytes.ofAscii "Negotiate" <+: value) : Names value negotiate
  | basic (hstart : Bytes.ofAscii "Basic" <+: value) : Names value basic
  | unset (hnegotiate : ¬ Bytes.ofAscii "Negotiate" <+: value)
      (hbasic : ¬ Bytes.ofAscii "Basic" <+: value) : Names value unset

theorem names_ofBytes (value : Bytes) : Names value (ofBytes value) := by
  unfold ofBytes
  split
  · next hnegotiate => exact .negotiate (List.isPrefixOf_iff_prefix.mp hnegotiate)
  · next hnegotiate =>
    split
    · next hbasic => exact .basic (List.isPrefixOf_iff_prefix.mp hbasic)
    · next hbasic =>
      exact .unset (mt List.isPrefixOf_iff_prefix.mpr hnegotiate)
        (mt List.isPrefixOf_iff_prefix.mpr hbasic)

/-- No value begins with both tokens. -/
theorem not_negotiate_of_basic {value : Bytes} (hbasic : Bytes.ofAscii "Basic" <+: value) :
    ¬ Bytes.ofAscii "Negotiate" <+: value := by
  intro hnegotiate
  have hstart : Bytes.ofAscii "Basic" <+: Bytes.ofAscii "Negotiate" :=
    List.prefix_of_prefix_length_le hbasic hnegotiate (by decide)
  revert hstart
  decide

/-- A value names one scheme. -/
theorem names_iff {value : Bytes} {scheme : AuthScheme} :
    Names value scheme ↔ ofBytes value = scheme := by
  constructor
  · intro hnames
    unfold ofBytes
    simp only [List.isPrefixOf_iff_prefix]
    cases hnames with
    | negotiate hstart => exact if_pos hstart
    | basic hstart => rw [if_neg (not_negotiate_of_basic hstart), if_pos hstart]
    | unset hnegotiate hbasic => rw [if_neg hnegotiate, if_neg hbasic]
  · rintro rfl
    exact names_ofBytes value

/-- What follows the token does not matter. -/
theorem Names.append {value : Bytes} {scheme : AuthScheme} (hnames : Names value scheme)
    (hset : scheme ≠ AuthScheme.unset) (suffix : Bytes) : Names (value ++ suffix) scheme := by
  cases hnames with
  | negotiate hstart => exact .negotiate (hstart.trans (List.prefix_append value suffix))
  | basic hstart => exact .basic (hstart.trans (List.prefix_append value suffix))
  | unset _ _ => exact absurd rfl hset

end AuthScheme

/-! ## Views of requests that agree -/

variable {ρ σ : Type} [InboundRequest ρ] [ListsHeaders ρ] [InboundRequest σ] [ListsHeaders σ]

namespace RequestView

theorem authScheme_of_some {view : RequestView ρ} {value : Bytes}
    (hvalue : authorization? view.inner = some value) :
    view.authScheme = (.ok (.ofBytes value), []) := by
  rw [authorization?_eq, Option.map_eq_some_iff] at hvalue
  obtain ⟨header, hheader, rfl⟩ := hvalue
  unfold authScheme
  rw [hheader]

theorem authScheme_of_none {view : RequestView ρ} (hnone : authorization? view.inner = none) :
    view.authScheme = view.principal.elim (.ok .unset, []) fun principal =>
      (.error (.missingHeader "Authorization"), [.missingAuthorization principal.name]) := by
  rw [authorization?_eq, Option.map_eq_none_iff] at hnone
  unfold authScheme
  rw [hnone]
  cases view.principal with
  | none => rfl
  | some principal => rfl

/-- Two views answer all queries alike, and report the same meanwhile. -/
structure Alike (view : RequestView ρ) (other : RequestView σ) : Prop where
  authScheme : view.authScheme = other.authScheme
  authType : view.authType = other.authType
  userName : view.userName = other.userName
  credential : view.credential = other.credential
  principal : view.principal = other.principal

end RequestView

/-- Two requests show the same to a view: the first `Authorization` value or none, and what
they report themselves. -/
structure Agree (request : ρ) (other : σ) : Prop where
  authorization : authorization? request = authorization? other
  authType : InboundRequest.authType? request = InboundRequest.authType? other
  remoteUser : InboundRequest.remoteUser? request = InboundRequest.remoteUser? other

namespace Agree

variable {request : ρ} {other : σ}

theorem authScheme_eq (hagree : Agree request other) (principal : Option Principal) :
    (RequestView.mk request principal).authScheme =
      (RequestView.mk other principal).authScheme := by
  have hauthorization := hagree.authorization
  cases hvalue : authorization? request with
  | none =>
      rw [hvalue] at hauthorization
      rw [RequestView.authScheme_of_none hvalue,
        RequestView.authScheme_of_none hauthorization.symm]
  | some value =>
      rw [hvalue] at hauthorization
      rw [RequestView.authScheme_of_some hvalue,
        RequestView.authScheme_of_some hauthorization.symm]

theorem authType_eq (hagree : Agree request other) (principal : Option Principal) :
    (RequestView.mk request principal).authType = (RequestView.mk other principal).authType := by
  have hscheme := hagree.authScheme_eq principal
  rcases hown : (RequestView.mk request principal).authScheme with ⟨error | scheme, log⟩
  · rw [hown] at hscheme
    rw [RequestView.authType_of_error hown, RequestView.authType_of_error hscheme.symm]
  · rw [hown] at hscheme
    rw [RequestView.authType_of_ok hown, RequestView.authType_of_ok hscheme.symm,
      hagree.authType]

theorem alike (hagree : Agree request other) (principal : Option Principal) :
    RequestView.Alike ⟨request, principal⟩ ⟨other, principal⟩ where
  authScheme := hagree.authScheme_eq principal
  authType := hagree.authType_eq principal
  userName := by
    cases principal with
    | none => exact hagree.remoteUser
    | some principal => rfl
  credential := rfl
  principal := rfl

/-- A request agrees with one that is made in any order of settings, if the first value and
the last reports are the same. -/
theorem of_settings {settings : List Setting}
    (hauthorization : authorization? request =
      (HeaderMap.get? (settings.filterMap Setting.header?) .authorization).map (·.content))
    (hauthType : InboundRequest.authType? request =
      (settings.filterMap Setting.authType?).getLast?)
    (hremoteUser : InboundRequest.remoteUser? request =
      (settings.filterMap Setting.remoteUser?).getLast?) :
    Agree request (settings.foldl ContainerRequest.set ∅) := by
  rw [ContainerRequest.foldl_set]
  refine ⟨?_, ?_, ?_⟩
  · rw [hauthorization, authorization?_eq]
    rfl
  · rw [hauthType]
    exact (Option.or_none).symm
  · rw [hremoteUser]
    exact (Option.or_none).symm

end Agree

/-! ## The whole -/

/-- What the views of two requests that agree have to do with each other and with the value
that they share. -/
structure FirstValueSpeaks (request : ρ) (other : σ) (principal : Option Principal) : Prop where
  alike : RequestView.Alike ⟨request, principal⟩ ⟨other, principal⟩
  /-- The value is the first that was given, whatever the case of the names. -/
  given : ∀ pairs, HeaderMap.Spelled pairs (ListsHeaders.headers request) →
    authorization? request = HeaderMap.firstNamed "Authorization" pairs
  /-- The order in which a request was made does not matter. -/
  made : ∀ settings : List Setting,
    authorization? request =
      (HeaderMap.get? (settings.filterMap Setting.header?) .authorization).map (·.content) →
    InboundRequest.authType? request = (settings.filterMap Setting.authType?).getLast? →
    InboundRequest.remoteUser? request = (settings.filterMap Setting.remoteUser?).getLast? →
    RequestView.Alike ⟨request, principal⟩
      ⟨settings.foldl ContainerRequest.set (∅ : ContainerRequest), principal⟩
  /-- Any octets name the scheme whose token they begin with. -/
  named : ∀ value scheme, AuthScheme.ofBytes value = scheme ↔ AuthScheme.Names value scheme
  /-- The scheme is the one that the value names; without one the request itself is asked. -/
  spoken : ∀ value, authorization? request = some value →
    ∃ scheme, AuthScheme.Names value scheme ∧
      (RequestView.mk request principal).authScheme = (.ok scheme, []) ∧
      (RequestView.mk request principal).authType =
        (.ok (scheme.token?.or (InboundRequest.authType? request)), [])
  /-- A longer value names the same scheme, if the value names one. -/
  extended : ∀ value suffix, AuthScheme.ofBytes value ≠ .unset →
    AuthScheme.ofBytes (value ++ suffix) = AuthScheme.ofBytes value
  /-- So does the view of a request with a longer value, whoever the caller. -/
  lengthened : ∀ (τ : Type) [InboundRequest τ] [ListsHeaders τ] (longer : τ)
    (caller : Option Principal) (value suffix : Bytes) (scheme : AuthScheme),
    authorization? request = some value → authorization? longer = some (value ++ suffix) →
    (RequestView.mk request principal).authScheme.1 = .ok scheme → scheme ≠ .unset →
    (RequestView.mk longer caller).authScheme = (RequestView.mk request principal).authScheme ∧
      (RequestView.mk longer caller).authType = (RequestView.mk request principal).authType

/-- Two values of two schemes, behind another header. -/
private def twoSchemes : HeaderMap :=
  [⟨.contentType, ⟨Bytes.ofAscii "text/xml", by decide +kernel⟩⟩,
    ⟨.authorization, ⟨Bytes.ofAscii "Negotiate " ++ [233], by decide +kernel⟩⟩,
    ⟨.authorization, ⟨Bytes.ofAscii "Basic YTpi", by decide +kernel⟩⟩]

end KerberosHttp
