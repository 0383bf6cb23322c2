import KerberosHttp.Proofs.ClientAuth.Legible
import KerberosHttp.Proofs.Text.Trim

/-!
# Settings that make sense

What an object says of the login module, the user name and the password is all that is read of
it, in whatever order its members stand, and settings are accepted exactly if they name a login
module and either a whole login or none.

## Strategy

Reading adds what one member says at a time, so it succeeds exactly for legible members and gives
what these say of each field (`Settings.read_eq_ok_iff`); that does not depend on their order
(`SettingsField.textIn_perm`).  Checking compares the trimmed login module with nothing, and
trimming is known by what it leaves (`Text.trim_eq_iff`), so the accepted settings are those of
`Accepted` and the refused ones those of `Refused`.

## Main statement

* `Settings.configures`: what is read of an object, and what becomes of it.
-/

namespace KerberosHttp.Settings

open Json SettingsFields

/-! ## Checking -/

/-- Settings are accepted and become an authentication. -/
inductive Accepted (settings : Settings) : ClientAuth → Prop
  | alone {name : String} (htrimmed : Text.Trimmed settings.loginModule name) (hname : name ≠ "")
      (husername : settings.username = none) (hpassword : settings.password = none) :
      Accepted settings (.loginModule name)
  | login {name username : String} {password : Password}
      (htrimmed : Text.Trimmed settings.loginModule name) (hname : name ≠ "")
      (husername : settings.username = some username)
      (hpassword : settings.password = some password) :
      Accepted settings (.password name username password)

/-- Settings are refused for a reason.  A login module without a name comes before any other. -/
inductive Refused (settings : Settings) : SettingsError → Prop
  | blank (hblank : Text.Blank settings.loginModule) : Refused settings .emptyLoginModule
  | noPassword {username : String} (hblank : ¬ Text.Blank settings.loginModule)
      (husername : settings.username = some username) (hpassword : settings.password = none) :
      Refused settings (.missingPassword username)
  | noUsername {password : Password} (hblank : ¬ Text.Blank settings.loginModule)
      (husername : settings.username = none) (hpassword : settings.password = some password) :
      Refused settings .missingUsername

section Checking

variable {settings : Settings}

theorem Accepted.toClientAuth_eq {auth : ClientAuth} (haccepted : settings.Accepted auth) :
    settings.toClientAuth = .ok auth := by
  cases haccepted with
  | alone htrimmed hname husername hpassword =>
      simp [toClientAuth, htrimmed.trim_eq, hname, husername, hpassword]
  | login htrimmed hname husername hpassword =>
      simp [toClientAuth, htrimmed.trim_eq, hname, husername, hpassword]

theorem Refused.toClientAuth_eq {error : SettingsError} (hrefused : settings.Refused error) :
    settings.toClientAuth = .error error := by
  cases hrefused with
  | blank hblank => simp [toClientAuth, Text.trim_eq_empty_iff.mpr hblank]
  | noPassword hblank husername hpassword =>
      simp [toClientAuth, Text.trim_eq_empty_iff, hblank, husername, hpassword]
  | noUsername hblank husername hpassword =>
      simp [toClientAuth, Text.trim_eq_empty_iff, hblank, husername, hpassword]

theorem accepted_or_refused (settings : Settings) :
    (∃ auth, settings.Accepted auth) ∨ ∃ error, settings.Refused error := by
  have htrimmed := Text.trimmed_trim settings.loginModule
  by_cases hblank : Text.Blank settings.loginModule
  · exact .inr ⟨_, .blank hblank⟩
  · have hname : Text.trim settings.loginModule ≠ "" := fun h => hblank (Text.trim_eq_empty_iff.mp h)
    cases husername : settings.username with
    | none =>
        cases hpassword : settings.password with
        | none => exact .inl ⟨_, .alone htrimmed hname husername hpassword⟩
        | some password => exact .inr ⟨_, .noUsername hblank husername hpassword⟩
    | some username =>
        cases hpassword : settings.password with
        | none => exact .inr ⟨_, .noPassword hblank husername hpassword⟩
        | some password => exact .inl ⟨_, .login htrimmed hname husername hpassword⟩

theorem toClientAuth_eq_ok_iff {auth : ClientAuth} :
    settings.toClientAuth = .ok auth ↔ settings.Accepted auth := by
  refine ⟨fun hauth => ?_, Accepted.toClientAuth_eq⟩
  rcases settings.accepted_or_refused with ⟨auth', haccepted⟩ | ⟨error, hrefused⟩
  · rw [haccepted.toClientAuth_eq, Except.ok.injEq] at hauth
    exact hauth ▸ haccepted
  · rw [hrefused.toClientAuth_eq] at hauth
    cases hauth

theorem toClientAuth_eq_error_iff {error : SettingsError} :
    settings.toClientAuth = .error error ↔ settings.Refused error := by
  refine ⟨fun herror => ?_, Refused.toClientAuth_eq⟩
  rcases settings.accepted_or_refused with ⟨auth, haccepted⟩ | ⟨error', hrefused⟩
  · rw [haccepted.toClientAuth_eq] at herror
    cases herror
  · rw [hrefused.toClientAuth_eq, Except.error.injEq] at herror
    exact herror ▸ hrefused

/-- Settings are accepted exactly if they name a login module and a whole login or none. -/
theorem exists_accepted_iff :
    (∃ auth, settings.Accepted auth) ↔ ¬ Text.Blank settings.loginModule ∧
      (settings.username.isSome = true ↔ settings.password.isSome = true) := by
  constructor
  · rintro ⟨_, haccepted⟩
    cases haccepted with
    | alone htrimmed hname husername hpassword =>
        refine ⟨fun hblank => hname ?_, by simp [husername, hpassword]⟩
        rw [← htrimmed.trim_eq, Text.trim_eq_empty_iff.mpr hblank]
    | login htrimmed hname husername hpassword =>
        refine ⟨fun hblank => hname ?_, by simp [husername, hpassword]⟩
        rw [← htrimmed.trim_eq, Text.trim_eq_empty_iff.mpr hblank]
  · rintro ⟨hblank, hlogin⟩
    rcases settings.accepted_or_refused with haccepted | ⟨error, hrefused⟩
    · exact haccepted
    · cases hrefused with
      | blank h => exact absurd h hblank
      | noPassword _ husername hpassword => simp [husername, hpassword] at hlogin
      | noUsername _ husername hpassword => simp [husername, hpassword] at hlogin

/-- What an authentication has of the settings that it was made of. -/
structure Meant (settings : Settings) (auth : ClientAuth) : Prop where
  login : (∃ name username password, auth = .password name username password) ↔
    settings.username.isSome = true ∧ settings.password.isSome = true
  verbatim : ∀ name username password, auth = .password name username password →
    settings.username = some username ∧ settings.password = some password
  /-- The name of the login module is trimmed, and checking settings with this name again
  changes nothing. -/
  name : ∃ name, auth.loginModuleName = some name ∧
    Text.Trimmed settings.loginModule name ∧ name ≠ "" ∧
    { settings with loginModule := name }.toClientAuth = .ok auth

theorem Accepted.meant {auth : ClientAuth} (haccepted : settings.Accepted auth) :
    settings.Meant auth := by
  cases haccepted with
  | @alone name htrimmed hname husername hpassword =>
      have hagain : { settings with loginModule := name }.Accepted (.loginModule name) :=
        .alone htrimmed.again hname husername hpassword
      exact
        { login := by simp [husername]
          verbatim := nofun
          name := ⟨name, rfl, htrimmed, hname, hagain.toClientAuth_eq⟩ }
  | @login name username password htrimmed hname husername hpassword =>
      have hagain : { settings with loginModule := name }.Accepted
          (.password name username password) :=
        .login htrimmed.again hname husername hpassword
      exact
        { login := by simp [husername, hpassword]
          verbatim := by
            rintro _ _ _ ⟨⟩
            exact ⟨husername, hpassword⟩
          name := ⟨name, rfl, htrimmed, hname, hagain.toClientAuth_eq⟩ }

end Checking

/-! ## Reading and checking -/

/-- What is read of a text that writes an object with such members, and what becomes of it. -/
structure Configures (members : Members) (text : String) : Prop where
  /-- The three fields say what is read: a missing login module is the default one, and a user
  name or a password that is missing or null is absent. -/
  read : Settings.read text = .ok (ofMembers members)
  /-- Any other object that says the same of the three fields is read alike. -/
  only : ∀ {others : Members} {text' : String}, (Value.object others).Writes text' →
    Legible others → (∀ field, SettingsField.textIn field others = field.textIn members) →
    Settings.read text' = Settings.read text
  anyOrder : ∀ {others : Members} {text' : String}, (Value.object others).Writes text' →
    others.Perm members → Settings.read text' = Settings.read text
  accepted : (∃ auth, (ofMembers members).toClientAuth = .ok auth) ↔
    ¬ Text.Blank (ofMembers members).loginModule ∧
      ((SettingsField.username.textIn members).isSome = true ↔
        (SettingsField.password.textIn members).isSome = true)
  meant : ∀ auth, (ofMembers members).toClientAuth = .ok auth → (ofMembers members).Meant auth
  refused : ∀ error, (ofMembers members).toClientAuth = .error error ↔
    (ofMembers members).Refused error

/-- **Exactly the settings that make sense are accepted.**  Take an object whose names spell
texts and in which each of the three fields has one member at most, the login module a string
and the user name and the password a string or null; whatever else stands in it, and in any
order, the three fields alone say what is read.  It is accepted exactly if the login module is
not blank and the user name and the password are both there or both not.  Then the
authentication is a login with a password exactly if they are there, and has them as they were
written, and its login module is the given one without the blank characters at its ends.
Otherwise the first thing wrong is reported, a blank login module before the half of the login
that is missing. -/
theorem configures {members : Members} {text : String}
    (hwrites : (Value.object members).Writes text) (hlegible : Legible members) :
    Configures members text := by
  have hread : Settings.read text = .ok (ofMembers members) :=
    (read_eq_ok_iff hwrites).mpr ⟨hlegible, rfl⟩
  have honly : ∀ {others : Members} {text' : String}, (Value.object others).Writes text' →
      Legible others → (∀ field, SettingsField.textIn field others = field.textIn members) →
      Settings.read text' = Settings.read text := by
    intro others text' hwrites' hlegible' hsame
    rw [hread, (read_eq_ok_iff hwrites').mpr ⟨hlegible', rfl⟩, ofMembers, hsame, hsame, hsame]
    rfl
  exact
    { read := hread
      only := honly
      anyOrder := fun hwrites' hperm =>
        honly hwrites' (hlegible.perm hperm) fun _ => SettingsField.textIn_perm hlegible hperm
      accepted := by
        simp only [toClientAuth_eq_ok_iff, exists_accepted_iff]
        rw [ofMembers, Option.isSome_map]
      meant := fun auth hauth => (toClientAuth_eq_ok_iff.mp hauth).meant
      refused := fun error => toClientAuth_eq_error_iff }

/-- A login that leaves the login module out and says something else as well. -/
theorem configures_login :
    let plain := StringUnit.plain
    let members : Members :=
      [(plain "password", .string (plain "s")), (plain "x", .array [.null]),
        (plain "username", .string (plain "u"))]
    let text := "\x7b\"password\":\"s\",\"x\":[null],\"username\":\"u\"\x7d"
    (Value.object members).Writes text ∧ Legible members ∧ Configures members text ∧
      (ofMembers members).toClientAuth = .ok (.password "spnego-client" "u" ⟨"s"⟩) := by
  intro plain members text
  have hwrites : (Value.object members).Writes text := by
    have hwritten := Writes.next .openBrace nofun <|
      .next (.plain "password" (by decide +kernel)) nofun <| .next .colon nofun <|
      .next (.plain "s" (by decide +kernel)) nofun <| .next .comma nofun <|
      .next (.plain "x" (by decide +kernel)) nofun <| .next .colon nofun <|
      .next .openBracket nofun <| .next .nullWord nofun <| .next .closeBracket nofun <|
      .next .comma nofun <|
      .next (.plain "username" (by decide +kernel)) nofun <| .next .colon nofun <|
      .next (.plain "u" (by decide +kernel)) nofun <| .next .closeBrace nofun <|
      .done (List.forall_mem_nil _)
    rw [Value.Writes]
    convert hwritten using 1
    · decide +kernel
    · decide +kernel
  have hfields : members.filterMap SettingsField.of? = [.password, .username] := by
    decide +kernel
  have hlegible : Legible members :=
    { named := by simp [members, plain, StringUnit.text?_plain]
      once := by rw [hfields]; decide
      suited := by
        have hsuits : ∀ (field : SettingsField) (text : String), Suits field (.string (plain text)) :=
          fun field text => .string (StringUnit.text?_plain text)
        have hother : SettingsField.of? (plain "x", .array [.null]) = none := by decide +kernel
        simp [members, hsuits, hother] }
  have hsettings : ofMembers members = ⟨"spnego-client", some "u", some ⟨"s"⟩⟩ := by
    decide +kernel
  have htrimmed : Text.Trimmed "spnego-client" "spnego-client" :=
    Text.trim_eq_iff.mp (by decide +kernel)
  have haccepted : (ofMembers members).Accepted (.password "spnego-client" "u" ⟨"s"⟩) := by
    rw [hsettings]
    exact .login htrimmed (by decide) rfl rfl
  exact ⟨hwrites, hlegible, configures hwrites hlegible, haccepted.toClientAuth_eq⟩

end KerberosHttp.Settings
