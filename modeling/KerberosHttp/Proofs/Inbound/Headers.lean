import KerberosHttp.Inbound.View
import Mathlib.Data.List.Forall2

/-!
# The header that a view relies on

A view asks a request for the first value of `Authorization` and for no other header.  Here is
which value that is, for every kind of request and every way to make one.

## Strategy

* **Kinds of requests.** `ListsHeaders` says that a request answers for a name with the first
  of the values listed for it.  A reference lists what its target lists.
* **Names as they are given.** A name may be given in any case.  The first value is the one of
  the first pair whose name is the same but for case (`HeaderMap.Spelled.content_get?`).
* **Making a request.** Whatever is said of a container's request and in whichever order, its
  headers are in the order of their additions, and of its own reports the last ones count
  (`ContainerRequest.foldl_set`).
-/

namespace KerberosHttp

/-! ## Headers as they are given -/

theorem HeaderName.text_of_ofString? {text : String} {name : HeaderName}
    (hname : HeaderName.ofString? text = some name) : name.text = Ascii.lowercase text := by
  dsimp only [HeaderName.ofString?] at hname
  split at hname
  · cases hname
    rfl
  · cases hname

theorem HeaderValue.content_of_ofBytes? {content : Bytes} {value : HeaderValue}
    (hvalue : HeaderValue.ofBytes? content = some value) : value.content = content := by
  unfold HeaderValue.ofBytes? at hvalue
  split at hvalue
  · cases hvalue
    rfl
  · cases hvalue

/-- A header has the name that the pair spells and the octets of its value. -/
theorem Header.of_ofPair {name : String} {value : Bytes} {header : Header}
    (hheader : Header.ofPair name value = .ok header) :
    header.name.text = Ascii.lowercase name ∧ header.value.content = value := by
  unfold Header.ofPair at hheader
  split at hheader
  · cases hheader
  · next spelled hname =>
    split at hheader
    · cases hheader
    · next sent hvalue =>
      cases hheader
      exact ⟨HeaderName.text_of_ofString? hname, HeaderValue.content_of_ofBytes? hvalue⟩

namespace HeaderMap

/-- Headers are the ones that pairs of names and values spell. -/
def Spelled (pairs : List (String × Bytes)) (headers : HeaderMap) : Prop :=
  List.Forall₂ (fun pair header => Header.ofPair pair.1 pair.2 = .ok header) pairs headers

/-- The value of the first pair with a name, in any case. -/
def firstNamed (text : String) (pairs : List (String × Bytes)) : Option Bytes :=
  (pairs.find? fun pair => Ascii.SameName pair.1 text).map (·.2)

/-- The first value of a name is the one that was given first, however the names were
spelled. -/
theorem Spelled.content_get? {pairs : List (String × Bytes)} {headers : HeaderMap}
    (hspelled : Spelled pairs headers) {text : String} {name : HeaderName}
    (hname : name.text = Ascii.lowercase text) :
    (headers.get? name).map (·.content) = firstNamed text pairs := by
  unfold get? firstNamed
  induction hspelled with
  | nil => rfl
  | @cons pair header pairs headers hpair hrest ih =>
      obtain ⟨hspells, hcontent⟩ := Header.of_ofPair hpair
      have hsame : decide (header.name = name) = decide (Ascii.SameName pair.1 text) := by
        rw [decide_eq_decide, HeaderName.mk.injEq, hspells, hname]
        rfl
      rw [List.find?_cons, List.find?_cons, hsame]
      cases decide (Ascii.SameName pair.1 text) with
      | true => exact congrArg some hcontent
      | false => exact ih

end HeaderMap

/-! ## Requests that list their headers -/

/-- Requests that answer for a name with the first of the values listed for it. -/
class ListsHeaders (ρ : Type) [InboundRequest ρ] where
  headers : ρ → HeaderMap
  header?_eq : ∀ (request : ρ) (name : HeaderName),
    InboundRequest.header? request name = ((headers request).getAll name).head?

instance : ListsHeaders PlainRequest where
  headers := PlainRequest.headers
  header?_eq request name := request.headers.get?_eq_head?_getAll name

instance : ListsHeaders ContainerRequest where
  headers := ContainerRequest.headers
  header?_eq request name := request.headers.get?_eq_head?_getAll name

instance {ρ : Type} [InboundRequest ρ] [ListsHeaders ρ] : ListsHeaders (BorrowedRequest ρ) where
  headers request := ListsHeaders.headers request.target
  header?_eq request name := ListsHeaders.header?_eq request.target name

section Authorization

variable {ρ : Type} [InboundRequest ρ] [ListsHeaders ρ]

/-- No header of a request has the name `Authorization`. -/
def LacksAuthorization (request : ρ) : Prop :=
  ∀ header ∈ ListsHeaders.headers request, header.name ≠ .authorization

theorem header?_eq_none_iff (request : ρ) :
    InboundRequest.header? request .authorization = none ↔ LacksAuthorization request := by
  rw [ListsHeaders.header?_eq, ← HeaderMap.get?_eq_head?_getAll, HeaderMap.get?,
    Option.map_eq_none_iff, List.find?_eq_none]
  simp only [decide_eq_true_eq]
  rfl

/-- The octets of the first `Authorization` value among those listed. -/
def authorization? (request : ρ) : Option Bytes :=
  ((ListsHeaders.headers request).getAll .authorization).head?.map (·.content)

theorem authorization?_eq (request : ρ) :
    authorization? request =
      (InboundRequest.header? request .authorization).map (·.content) := by
  rw [authorization?, ListsHeaders.header?_eq]

/-- It is the first that was given, however the names were spelled. -/
theorem authorization?_of_spelled {request : ρ} {pairs : List (String × Bytes)}
    (hspelled : HeaderMap.Spelled pairs (ListsHeaders.headers request)) :
    authorization? request = HeaderMap.firstNamed "Authorization" pairs := by
  rw [authorization?, ← HeaderMap.get?_eq_head?_getAll]
  exact hspelled.content_get? (by decide +kernel)

end Authorization

/-! ## Making a request -/

/-- One thing that is said of a request while it is made. -/
inductive Setting
  | header (header : Header)
  | authType (authType : String)
  | remoteUser (user : String)
  deriving DecidableEq

namespace Setting

def header? : Setting → Option Header
  | .header added => some added
  | _ => none

def authType? : Setting → Option String
  | .authType reported => some reported
  | _ => none

def remoteUser? : Setting → Option String
  | .remoteUser reported => some reported
  | _ => none

end Setting

namespace ContainerRequest

def set (request : ContainerRequest) : Setting → ContainerRequest
  | .header header => request.addHeader header
  | .authType authType => request.withAuthType authType
  | .remoteUser user => request.withRemoteUser user

/-- The last report stays whatever was reported before. -/
theorem getLast?_cons_or {α : Type} (first : α) (rest : List α) (before : Option α) :
    ((first :: rest).getLast?).or before = rest.getLast?.or (some first) := by
  rw [List.getLast?_cons]
  cases rest.getLast? with
  | none => rfl
  | some last => rfl

/-- A request that is made of settings has all their headers in order, and their last reports,
or else its own. -/
theorem foldl_set (request : ContainerRequest) (settings : List Setting) :
    settings.foldl set request =
      { headers := request.headers ++ settings.filterMap Setting.header?
        authType := (settings.filterMap Setting.authType?).getLast?.or request.authType
        remoteUser :=
          (settings.filterMap Setting.remoteUser?).getLast?.or request.remoteUser } := by
  -- the first setting changes the request that the others are made on
  induction settings generalizing request with
  | nil => simp
  | cons setting settings ih =>
      rw [List.foldl_cons, ih]
      cases setting with
      | header added =>
          simp only [set, addHeader, List.filterMap_cons, Setting.header?, Setting.authType?,
            Setting.remoteUser?, List.append_assoc, List.singleton_append]
      | authType reported =>
          simp only [set, withAuthType, List.filterMap_cons, Setting.header?, Setting.authType?,
            Setting.remoteUser?, getLast?_cons_or]
      | remoteUser reported =>
          simp only [set, withRemoteUser, List.filterMap_cons, Setting.header?, Setting.authType?,
            Setting.remoteUser?, getLast?_cons_or]

end ContainerRequest

end KerberosHttp
