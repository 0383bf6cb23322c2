import KerberosHttp.Proofs.Inbound.Headers
import KerberosHttp.Proofs.Principal

/-!
# What a view relies on

A principal comes from an `Authorization` header.  This is checked in two places: when a
request is authenticated, and by each query of a view that reads the header.

## Strategy

Both checks are the same one, of `RequestView.Founded`.  `Authenticates` says how the first
may end, with one case for each outcome, and `RequestView.authScheme_eq_error_iff` what the
second finds.  A view that passed the first is founded, and nothing that a query reads has
changed since, so the second passes as well.

## Main statement

* `authenticate_dependable`: the outcomes of an authentication, and the answers of the view
  that it makes or of any other.
-/

namespace KerberosHttp

variable {ρ : Type} [InboundRequest ρ]

/-! ## The queries of a view -/

namespace RequestView

theorem authType_of_error {view : RequestView ρ} {error : InboundError} {log : Log}
    (hscheme : view.authScheme = (.error error, log)) : view.authType = (.error error, log) := by
  unfold authType
  rw [hscheme]

/-- The type of a view is the token of its scheme, or else what the request reports. -/
theorem authType_of_ok {view : RequestView ρ} {scheme : AuthScheme} {log : Log}
    (hscheme : view.authScheme = (.ok scheme, log)) :
    view.authType = (.ok (scheme.token?.or (InboundRequest.authType? view.inner)), log) := by
  unfold authType
  rw [hscheme]
  dsimp only
  cases scheme.token? with
  | none => rfl
  | some token => rfl

/-- The query for the type fails as the one for the scheme. -/
theorem authType_eq_error_iff (view : RequestView ρ) {error : InboundError} :
    view.authType.1 = .error error ↔ view.authScheme.1 = .error error := by
  rcases hscheme : view.authScheme with ⟨cause | scheme, log⟩
  · rw [authType_of_error hscheme, Except.error.injEq, Except.error.injEq]
  · rw [authType_of_ok hscheme]
    exact iff_of_false (nomatch ·) (nomatch ·)

variable [ListsHeaders ρ]

/-- The request of a view has the header that a principal comes from. -/
def Founded (view : RequestView ρ) : Prop :=
  view.principal.isSome → ¬ LacksAuthorization view.inner

variable (view : RequestView ρ)

theorem authScheme_eq_error_iff {error : InboundError} :
    view.authScheme.1 = .error error ↔
      error = .missingHeader "Authorization" ∧ view.principal.isSome ∧
        LacksAuthorization view.inner := by
  rw [← header?_eq_none_iff, authScheme]
  split
  · next value principal hheader => simp [hheader]
  · next principal hheader hprincipal => simp [hheader, hprincipal, eq_comm]
  · next hheader hprincipal => simp [hprincipal]

/-- A founded view has a scheme, and nothing is reported when it is asked. -/
theorem Founded.authScheme {view : RequestView ρ} (hfounded : view.Founded) :
    ∃ scheme, view.authScheme = (.ok scheme, []) := by
  unfold Founded at hfounded
  rw [← header?_eq_none_iff] at hfounded
  unfold RequestView.authScheme
  split
  · next value principal hheader => exact ⟨_, rfl⟩
  · next principal hheader hprincipal =>
      exact absurd hheader (hfounded (hprincipal ▸ rfl))
  · next hheader hprincipal => exact ⟨_, rfl⟩

/-- What the queries of any view answer, whoever made it. -/
structure Answers (view : RequestView ρ) : Prop where
  scheme : ∀ error, view.authScheme.1 = .error error ↔
    error = .missingHeader "Authorization" ∧ view.principal.isSome ∧
      LacksAuthorization view.inner
  type : ∀ error, view.authType.1 = .error error ↔
    error = .missingHeader "Authorization" ∧ view.principal.isSome ∧
      LacksAuthorization view.inner
  /-- With a principal: the user part of its name, and its own credential. -/
  identified : ∀ principal, view.principal = some principal →
    (∃ user, view.userName = some user ∧ Principal.Spells principal.name user principal.realm) ∧
      view.credential = principal.credential
  /-- Without one: what the request itself reports, and no credential. -/
  anonymous : view.principal = none →
    view.userName = InboundRequest.remoteUser? view.inner ∧ view.credential = none

theorem answers : view.Answers where
  scheme error := view.authScheme_eq_error_iff
  type error := view.authType_eq_error_iff.trans view.authScheme_eq_error_iff
  identified principal hprincipal := by
    unfold userName credential
    rw [hprincipal]
    exact ⟨⟨principal.userName, rfl, principal.spells_parts⟩, rfl⟩
  anonymous hprincipal := by
    unfold userName credential
    rw [hprincipal]
    exact ⟨rfl, rfl⟩

end RequestView

/-! ## Authentication -/

variable [ListsHeaders ρ] {negotiate : ρ → Except TransportError (Option Principal)}
  {request : ρ}

/-- How an authentication ends. -/
inductive Authenticates (negotiate : ρ → Except TransportError (Option Principal))
    (request : ρ) : Except InboundError (RequestView ρ) → Prop
  | failed {cause : TransportError} (hnegotiate : negotiate request = .error cause) :
      Authenticates negotiate request (.error (.authentication cause))
  | unfounded {principal : Principal} (hnegotiate : negotiate request = .ok (some principal))
      (hlacks : LacksAuthorization request) :
      Authenticates negotiate request (.error (.missingHeader "Authorization"))
  | viewed {principal : Option Principal} (hnegotiate : negotiate request = .ok principal)
      (hfounded : (RequestView.mk request principal).Founded) :
      Authenticates negotiate request (.ok ⟨request, principal⟩)

theorem authenticates (negotiate : ρ → Except TransportError (Option Principal)) (request : ρ) :
    Authenticates negotiate request (authenticate negotiate request).1 := by
  unfold authenticate
  split
  · next cause hnegotiate => exact .failed hnegotiate
  · next hnegotiate => exact .viewed hnegotiate (fun hsome => nomatch hsome)
  · next principal hnegotiate =>
    split
    · next hheader => exact .unfounded hnegotiate ((header?_eq_none_iff request).mp hheader)
    · next value hheader =>
      refine .viewed hnegotiate fun _ => ?_
      rw [← header?_eq_none_iff, hheader]
      exact Option.some_ne_none value

/-- It ends in one way. -/
theorem authenticates_iff {result : Except InboundError (RequestView ρ)} :
    Authenticates negotiate request result ↔ (authenticate negotiate request).1 = result := by
  constructor
  · intro hresult
    unfold authenticate
    cases hresult with
    | failed hnegotiate => rw [hnegotiate]
    | unfounded hnegotiate hlacks => rw [hnegotiate, (header?_eq_none_iff request).mpr hlacks]
    | @viewed principal hnegotiate hfounded =>
        rw [hnegotiate]
        cases principal with
        | none => rfl
        | some principal =>
            have hheader := mt (header?_eq_none_iff request).mp (hfounded rfl)
            obtain ⟨value, hvalue⟩ := Option.ne_none_iff_exists'.mp hheader
            rw [hvalue]
  · rintro rfl
    exact authenticates negotiate request

/-! ## The whole -/

/-- What an authentication establishes, and what a view of the request can rely on. -/
structure Dependable (negotiate : ρ → Except TransportError (Option Principal))
    (request : ρ) : Prop where
  /-- The failure of the negotiation goes on as it is. -/
  failed : ∀ cause, (authenticate negotiate request).1 = .error (.authentication cause) ↔
    negotiate request = .error cause
  unfounded : ∀ header, (authenticate negotiate request).1 = .error (.missingHeader header) ↔
    header = "Authorization" ∧ LacksAuthorization request ∧
      ∃ principal, negotiate request = .ok (some principal)
  /-- Any other outcome is a view of this very request and this very principal. -/
  viewed : ∀ view, (authenticate negotiate request).1 = .ok view ↔
    view.inner = request ∧ negotiate request = .ok view.principal ∧
      (view.principal.isSome → ¬ LacksAuthorization request)
  /-- That view answers every query. -/
  unfailing : ∀ view, (authenticate negotiate request).1 = .ok view →
    (∃ scheme, view.authScheme = (.ok scheme, [])) ∧ ∃ type, view.authType = (.ok type, [])
  /-- Any other view of the request fails only for the header. -/
  answers : ∀ principal, (RequestView.mk request principal).Answers

/-- **What a view relies on is established by the authentication that made it.**  It fails
with the failure of the negotiation, or because the negotiation found a principal for a
request without an `Authorization` header, and in no other case; otherwise the queries of the
view never fail.  Of a view that was made in another way, the queries that read the header
fail in the second case and the others always answer. -/
theorem authenticate_dependable (negotiate : ρ → Except TransportError (Option Principal))
    (request : ρ) : Dependable negotiate request where
  failed cause := by
    rw [← authenticates_iff]
    constructor
    · rintro ⟨hnegotiate⟩
      exact hnegotiate
    · exact .failed
  unfounded header := by
    rw [← authenticates_iff]
    constructor
    · intro hends
      cases hends with
      | unfounded hnegotiate hlacks => exact ⟨rfl, hlacks, _, hnegotiate⟩
    · rintro ⟨rfl, hlacks, principal, hnegotiate⟩
      exact .unfounded hnegotiate hlacks
  viewed view := by
    rw [← authenticates_iff]
    constructor
    · intro hends
      cases hends with
      | viewed hnegotiate hfounded => exact ⟨rfl, hnegotiate, hfounded⟩
    · obtain ⟨inner, principal⟩ := view
      rintro ⟨rfl, hnegotiate, hfounded⟩
      exact .viewed hnegotiate hfounded
  unfailing view hview := by
    rw [← authenticates_iff] at hview
    cases hview with
    | viewed hnegotiate hfounded =>
        -- the query reads the header that was found when the view was made
        obtain ⟨scheme, hscheme⟩ := hfounded.authScheme
        exact ⟨⟨scheme, hscheme⟩, _, RequestView.authType_of_ok hscheme⟩
  answers principal := RequestView.answers ⟨request, principal⟩

end KerberosHttp
