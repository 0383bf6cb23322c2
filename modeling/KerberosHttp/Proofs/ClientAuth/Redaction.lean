import KerberosHttp.ClientAuth.Settings
import KerberosHttp.Connection.Basic

/-!
# What is shown of a configured password

Two settings that differ in the secret of their password, and in nothing else, cannot be told
apart by anything that is made of them: not by how they are shown, not by whether they make
sense, not by how the authentication they give is shown, and not by what opening a connection
reports.  Only the secret of that authentication is each one's own.

## Strategy

Checking settings moves the password on and looks only at whether there is one.  So the outcomes
for two such settings are the same refusal, or two password logins that differ in their secret
alone (`Alike`), and each of the other facts is one about such a pair of logins.

## Main statement

* `Settings.redacts`: what is the same for two settings, and what is not.
-/

namespace KerberosHttp

/-- Two settings that differ in the secret of a password that both have, if in anything. -/
def Settings.SameButSecret (settings other : Settings) : Prop :=
  ∃ secret secret', settings.password = some ⟨secret⟩ ∧
    other = { settings with password := some ⟨secret'⟩ }

namespace ClientAuth

/-- Two authentications that differ in the secret of a password that both have, if in
anything. -/
inductive SameButSecret : ClientAuth → ClientAuth → Prop
  | same (auth : ClientAuth) : SameButSecret auth auth
  | password (loginModule username secret secret' : String) :
      SameButSecret (.password loginModule username ⟨secret⟩)
        (.password loginModule username ⟨secret'⟩)

/-- The password of an authentication that has one. -/
def password? : ClientAuth → Option Password
  | password _ _ secret => some secret
  | _ => none

namespace SameButSecret

variable {auth auth' : ClientAuth} (hsame : auth.SameButSecret auth')

include hsame

theorem describe_eq : auth.describe = auth'.describe := by
  cases hsame with
  | same => rfl
  | password => rfl

theorem loginModuleName_eq : auth.loginModuleName = auth'.loginModuleName := by
  cases hsame with
  | same => rfl
  | password => rfl

end SameButSecret

end ClientAuth

/-! ## Opening a connection -/

section Opening

variable {σ : Type} (factory : ClientAuth → Except TransportError σ × Log)

/-- A factory of transports whose outcome does not depend on the secret of a password. -/
def IgnoresSecret : Prop :=
  ∀ auth auth' : ClientAuth, auth.SameButSecret auth' → (factory auth).1 = (factory auth').1

/-- Opening a connection for either of two authentications has the same outcome and reports
the same. -/
structure OpensAlike (auth auth' : ClientAuth) : Prop where
  result : (Connection.openWith factory auth).1 = (Connection.openWith factory auth').1
  /-- One event is reported, the same for both, after all that the factory reports itself. -/
  event : ∃ event, (Connection.openWith factory auth).2 = (factory auth).2 ++ [event] ∧
    (Connection.openWith factory auth').2 = (factory auth').2 ++ [event]
  log : (factory auth).2 = (factory auth').2 →
    (Connection.openWith factory auth).2 = (Connection.openWith factory auth').2

variable {factory}

theorem IgnoresSecret.opensAlike (hignores : IgnoresSecret factory) {auth auth' : ClientAuth}
    (hsame : auth.SameButSecret auth') : OpensAlike factory auth auth' := by
  have hresult := hignores auth auth' hsame
  have hname := hsame.loginModuleName_eq
  have hopen : ∃ outcome event,
      Connection.openWith factory auth = (outcome, (factory auth).2 ++ [event]) ∧
      Connection.openWith factory auth' = (outcome, (factory auth').2 ++ [event]) := by
    unfold Connection.openWith
    rw [hname]
    generalize factory auth = opened at hresult ⊢
    generalize factory auth' = opened' at hresult ⊢
    obtain ⟨outcome, log⟩ := opened
    obtain ⟨outcome', log'⟩ := opened'
    obtain rfl : outcome = outcome' := hresult
    cases outcome with
    | ok transport => exact ⟨_, _, rfl, rfl⟩
    | error error => exact ⟨_, _, rfl, rfl⟩
  obtain ⟨outcome, event, hfirst, hsecond⟩ := hopen
  exact
    { result := by rw [hfirst, hsecond]
      event := ⟨event, by rw [hfirst], by rw [hsecond]⟩
      log := fun hlog => by rw [hfirst, hsecond, hlog] }

end Opening

/-! ## Checking settings -/

namespace Settings

/-- The outcomes for two settings that differ in the secret alone: the same refusal, or two
logins each with its own secret. -/
inductive Alike (secret secret' : String) :
    Except SettingsError ClientAuth → Except SettingsError ClientAuth → Prop
  | refused (error : SettingsError) : Alike secret secret' (.error error) (.error error)
  | accepted (loginModule username : String) :
      Alike secret secret' (.ok (.password loginModule username ⟨secret⟩))
        (.ok (.password loginModule username ⟨secret'⟩))

namespace Alike

variable {secret secret' : String} {outcome outcome' : Except SettingsError ClientAuth}
  (halike : Alike secret secret' outcome outcome')

include halike

theorem refused_iff (error : SettingsError) : outcome = .error error ↔ outcome' = .error error := by
  cases halike with
  | refused => exact Iff.rfl
  | accepted => exact iff_of_false nofun nofun

theorem exists_login {auth : ClientAuth} (haccepted : outcome = .ok auth) :
    ∃ auth', outcome' = .ok auth' ∧ auth.SameButSecret auth' ∧
      auth.password? = some ⟨secret⟩ ∧ auth'.password? = some ⟨secret'⟩ := by
  cases halike with
  | refused => cases haccepted
  | accepted loginModule username =>
      cases haccepted
      exact ⟨_, rfl, .password loginModule username secret secret', rfl, rfl⟩

end Alike

theorem toClientAuth_alike (settings : Settings) (secret secret' : String) :
    Alike secret secret' { settings with password := some ⟨secret⟩ }.toClientAuth
      { settings with password := some ⟨secret'⟩ }.toClientAuth := by
  obtain ⟨loginModule, username, password⟩ := settings
  unfold toClientAuth
  by_cases hblank : Text.trim loginModule = ""
  · simp only [if_pos hblank]
    exact .refused _
  · simp only [if_neg hblank]
    cases username with
    | none => exact .refused _
    | some username => exact .accepted _ username

/-- What is the same for two settings, and what is not. -/
structure Redacts (settings other : Settings) : Prop where
  shown : settings.describe = other.describe
  refused : ∀ error, settings.toClientAuth = .error error ↔ other.toClientAuth = .error error
  accepted : ∀ auth, settings.toClientAuth = .ok auth → ∃ auth', other.toClientAuth = .ok auth' ∧
    auth.SameButSecret auth' ∧
    auth.describe = auth'.describe ∧ auth.loginModuleName = auth'.loginModuleName ∧
    (∀ {σ : Type} (factory : ClientAuth → Except TransportError σ × Log),
      IgnoresSecret factory → OpensAlike factory auth auth') ∧
    auth.password? = settings.password ∧ auth'.password? = other.password

/-- **A configured password does not show.**  Take two settings that differ in nothing but the
secret of their password.  They are shown alike; checking refuses both for the same reason, or
makes authentications of them that differ in the secret at most; these are shown alike and have
the same login module, and a connection is opened for them with the same outcome and the same
report, if the factory does not look at the secret.  Yet each authentication has its own
password unchanged. -/
theorem redacts {settings other : Settings} (hsame : settings.SameButSecret other) :
    settings.Redacts other := by
  obtain ⟨secret, secret', hpassword, rfl⟩ := hsame
  obtain ⟨loginModule, username, password⟩ := settings
  obtain rfl : password = some ⟨secret⟩ := hpassword
  have halike := toClientAuth_alike ⟨loginModule, username, none⟩ secret secret'
  refine ⟨rfl, halike.refused_iff, ?_⟩
  intro auth hauth
  obtain ⟨auth', hauth', hlogins, hsecret, hsecret'⟩ := halike.exists_login hauth
  exact ⟨auth', hauth', hlogins, hlogins.describe_eq, hlogins.loginModuleName_eq,
    fun factory hignores => hignores.opensAlike hlogins, hsecret, hsecret'⟩

/-- Two secrets of one user, and a factory that opens a transport known by its login module. -/
theorem redacts_two_secrets :
    let settings (secret : String) : Settings := ⟨" spnego ", some "svc", some ⟨secret⟩⟩
    let factory : ClientAuth → Except TransportError String × Log :=
      fun auth => (.ok (auth.loginModuleName.getD ""), [])
    (settings "first").SameButSecret (settings "second") ∧ IgnoresSecret factory ∧
      (settings "first").describe = (settings "second").describe ∧
      ∃ auth, (settings "second").toClientAuth = .ok auth ∧
        auth.password? = some ⟨"second"⟩ ∧
        OpensAlike factory (.password "spnego" "svc" ⟨"first"⟩) auth := by
  intro settings factory
  have hsame : (settings "first").SameButSecret (settings "second") :=
    ⟨"first", "second", rfl, rfl⟩
  have hignores : IgnoresSecret factory :=
    fun auth auth' hlogins => by simp only [factory, hlogins.loginModuleName_eq]
  have htrim : Text.trim " spnego " = "spnego" := by decide +kernel
  have hlogin : (settings "first").toClientAuth = .ok (.password "spnego" "svc" ⟨"first"⟩) := by
    simp [settings, toClientAuth, htrim]
  have hredacts := redacts hsame
  obtain ⟨auth, hauth, -, -, -, hopens, -, hsecret⟩ := hredacts.accepted _ hlogin
  exact ⟨hsame, hignores, hredacts.shown, auth, hauth, hsecret, hopens factory hignores⟩

end Settings

end KerberosHttp
