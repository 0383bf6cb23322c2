import KerberosHttp.ClientAuth.Basic
import KerberosHttp.Json.Event
import KerberosHttp.Json.Number
import KerberosHttp.Text.Blank

/-!
# Settings of client authentication

What an application writes into its configuration: a login module, a user name
and a password, all of which may be missing.  `Settings.read` reads a JSON text
and `Settings.toClientAuth` checks that what it says makes sense together.

The text is an object, whose unknown fields are skipped, or an array of the
values in order.  It is read from front to back and the first thing wrong with it
is reported.
-/

namespace KerberosHttp

structure Settings where
  loginModule : String
  username : Option String
  password : Option Password
  deriving DecidableEq

namespace Settings

/-- The login module that is used if none is named. -/
def defaultLoginModule : String := "spnego-client"

/-- The settings if nothing is configured. -/
instance : Inhabited Settings := ⟨⟨defaultLoginModule, none, none⟩⟩

def describe (settings : Settings) : String :=
  "ClientAuthConfig \x7b login_module: " ++ Text.quote settings.loginModule
    ++ ", username: " ++ Text.quoteOption (settings.username.map Text.quote)
    ++ ", password: " ++ Text.quoteOption (settings.password.map Password.display) ++ " \x7d"

end Settings

/-! ## Checking -/

inductive SettingsError
  | emptyLoginModule
  | missingPassword (username : String)
  | missingUsername
  deriving DecidableEq, Repr

def SettingsError.message : SettingsError → String
  | .emptyLoginModule => "login module name must not be empty"
  | .missingPassword username => "username '" ++ username ++ "' is configured without a password"
  | .missingUsername => "password is configured without a username"

def Settings.toClientAuth (settings : Settings) : Except SettingsError ClientAuth :=
  let loginModule := Text.trim settings.loginModule
  if loginModule = "" then .error .emptyLoginModule
  else
    match settings.username, settings.password with
    | none, none => .ok (.loginModule loginModule)
    | some username, some password => .ok (.password loginModule username password)
    | some username, none => .error (.missingPassword username)
    | none, some _ => .error .missingUsername

/-! ## Reading -/

/-- A value where another was expected. -/
inductive UnexpectedValue
  | integer (value : Int)
  | real (text : String)
  | boolean (value : Bool)
  | null
  | text (value : String)
  | array
  | object
  deriving DecidableEq, Repr

/-- How an unexpected value is named. -/
def UnexpectedValue.describe : UnexpectedValue → String
  | .integer value => s!"integer `{value}`"
  | .real digits => s!"floating point `{digits}`"
  | .boolean value => s!"boolean `{value}`"
  | .null => "null"
  | .text value => "string " ++ Text.quote value
  | .array => "sequence"
  | .object => "map"

/-- Why a text is no settings. -/
inductive ReadError
  /-- It is not JSON, or has too many parts. -/
  | malformed
  /-- A value is not of the type it should be. -/
  | mismatch (found : UnexpectedValue) (expected : String)
  /-- A field stands there twice. -/
  | duplicate (field : String)
  deriving DecidableEq, Repr

/-- The wording of an error; a malformed text has none. -/
def ReadError.message? : ReadError → Option String
  | .malformed => none
  | .mismatch found expected =>
    some ("invalid type: " ++ found.describe ++ ", expected " ++ expected)
  | .duplicate field => some s!"duplicate field `{field}`"

inductive SettingsField
  | loginModule
  | username
  | password
  deriving DecidableEq, Repr

namespace SettingsField

def name : SettingsField → String
  | loginModule => "login_module"
  | username => "username"
  | password => "password"

/-- The fields in the order in which an array gives them. -/
def all : List SettingsField := [loginModule, username, password]

def ofName? (name : String) : Option SettingsField := all.find? (·.name = name)

end SettingsField

/-- What a text says of the settings: for each field that it names, the value, or that
there is none. -/
abbrev SettingsFields := List (SettingsField × Option String)

namespace SettingsFields

def get? (fields : SettingsFields) (field : SettingsField) : Option (Option String) :=
  (fields.find? (·.1 = field)).map (·.2)

/-- The settings that fields say, with defaults for those they do not name. -/
def settings (fields : SettingsFields) : Settings :=
  { loginModule := ((fields.get? .loginModule).bind id).getD Settings.defaultLoginModule
    username := (fields.get? .username).bind id
    password := ((fields.get? .password).bind id).map Password.mk }

end SettingsFields

namespace Settings

open Json

/-- The error of an event that begins a value which was not expected. -/
def mismatch (expected : String) : Event → ReadError
  | .number text =>
    match text.value? with
    | some (.integer value) => .mismatch (.integer value) expected
    | some (.real value) => .mismatch (.real (realText value)) expected
    | none => .malformed
  | .string units =>
    match StringUnit.text? units with
    | some text => .mismatch (.text text) expected
    | none => .malformed
  | .boolean value => .mismatch (.boolean value) expected
  | .null => .mismatch .null expected
  | .beginArray => .mismatch .array expected
  | .beginObject => .mismatch .object expected
  | _ => .malformed

/-- Reads the value of a field.  A user name and a password may be null. -/
def readValue (field : SettingsField) : List Event → Except ReadError (Option String × List Event)
  | [] => .error .malformed
  | .string units :: rest =>
    match StringUnit.text? units with
    | some text => .ok (some text, rest)
    | none => .error .malformed
  | event :: rest =>
    if event = .null ∧ field ≠ .loginModule then .ok (none, rest)
    else .error (mismatch "a string" event)

/-- What follows the value at the front, which stands inside `depth` containers of the
same value. -/
def skipValue (depth : Nat) : List Event → Option (List Event)
  | [] => none
  | event :: rest =>
    match event with
    | .beginObject | .beginArray => skipValue (depth + 1) rest
    | .endObject | .endArray =>
      match depth with
      | 0 => none
      | 1 => some rest
      | depth + 2 => skipValue (depth + 1) rest
    | .key _ => skipValue depth rest
    | _ => if depth = 0 then some rest else skipValue depth rest

/-- Reads the fields of an object up to its end. -/
def readFields : Nat → SettingsFields → List Event →
    Except ReadError (SettingsFields × List Event)
  | 0, _, _ => .error .malformed
  | _, fields, .endObject :: rest => .ok (fields, rest)
  | limit + 1, fields, .key units :: rest =>
    match StringUnit.text? units with
    | none => .error .malformed
    | some name =>
      match SettingsField.ofName? name with
      | none =>
        match skipValue 0 rest with
        | none => .error .malformed
        | some rest => readFields limit fields rest
      | some field =>
        if (fields.get? field).isSome then .error (.duplicate field.name)
        else do
          let (value, rest) ← readValue field rest
          readFields limit (fields ++ [(field, value)]) rest
  | _, _, _ => .error .malformed

/-- Reads the elements of an array up to its end, which may come early. -/
def readElements (fields : SettingsFields) : List SettingsField → List Event →
    Except ReadError (SettingsFields × List Event)
  | _, .endArray :: rest => .ok (fields, rest)
  | [], _ => .error .malformed
  | field :: others, events => do
    let (value, rest) ← readValue field events
    readElements (fields ++ [(field, value)]) others rest

def readAll : List Event → Except ReadError (SettingsFields × List Event)
  | [] => .error .malformed
  | .beginObject :: rest => readFields (rest.length + 1) [] rest
  | .beginArray :: rest => readElements [] SettingsField.all rest
  | event :: _ => .error (mismatch "struct ClientAuthConfig" event)

/-- Reads settings from events, of which nothing may be left. -/
def ofEvents (events : Reading Event) : Except ReadError Settings :=
  match readAll events.items with
  | .error error => .error error
  | .ok (fields, rest) =>
    if rest.isEmpty && events.complete then .ok fields.settings else .error .malformed

def read (text : String) : Except ReadError Settings := ofEvents (Event.read text)

end Settings

end KerberosHttp
