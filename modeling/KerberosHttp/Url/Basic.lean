import KerberosHttp.Url.Host

/-!
# Addresses

An address in its parts, as they stand in it: encoded, with the default port and
an empty password left out.  `Url.render` writes the parts one after the other.

How a text is read as an address is left open: `Url.parse` is whatever reader there
is.  Nothing in this library depends on which one it is.
-/

namespace KerberosHttp

namespace Url

inductive SchemeKind
  /-- A scheme whose addresses always have a host, and in which a backslash is a slash -/
  | web
  /-- The scheme of files, whose host may be empty -/
  | file
  | other
  deriving DecidableEq, Repr

/-- The kind of a scheme in lower case. -/
def SchemeKind.ofScheme (scheme : String) : SchemeKind :=
  if scheme = "file" then .file
  else if ["http", "https", "ws", "wss", "ftp"].contains scheme then .web
  else .other

/-- Whether a backslash is read as a slash. -/
def SchemeKind.isSpecial : SchemeKind → Bool
  | .other => false
  | _ => true

/-- The port that a scheme's addresses need not name. -/
def defaultPort? (scheme : String) : Option Nat :=
  if scheme = "http" ∨ scheme = "ws" then some 80
  else if scheme = "https" ∨ scheme = "wss" then some 443
  else if scheme = "ftp" then some 21
  else none

/-- Who is asked, where, and in whose name. -/
structure Authority where
  /-- The user name, empty if there is none -/
  username : String
  /-- The password, if there is one that is not empty -/
  password : Option String
  /-- The host, a name without characters if there is none -/
  host : Host
  /-- The port, if it is named and not the default -/
  port : Option Nat
  deriving DecidableEq, Repr

/-- What an address names at its authority. -/
inductive Path
  /-- A text without structure -/
  | bare (text : String)
  /-- Segments, each with a slash before it -/
  | segments (parts : List String)
  deriving DecidableEq, Repr

end Url

structure Url where
  scheme : String
  authority : Option Url.Authority
  path : Url.Path
  query : Option String
  fragment : Option String
  deriving DecidableEq, Repr

namespace Url

/-- The user name and the password with the sign after them, if there is either. -/
def Authority.renderUser (authority : Authority) : String :=
  match authority.password with
  | some password => authority.username ++ ":" ++ password ++ "@"
  | none => if authority.username = "" then "" else authority.username ++ "@"

/-- The port with the colon before it, if it is named. -/
def Authority.renderPort (authority : Authority) : String :=
  match authority.port with
  | some port => ":" ++ toString port
  | none => ""

def Authority.render (authority : Authority) : String :=
  "//" ++ authority.renderUser ++ String.ofList authority.host.render ++ authority.renderPort

def Path.render : Path → String
  | .bare text => text
  | .segments parts => String.join (parts.map ("/" ++ ·))

/-- Whether a path would be read as an authority if nothing stood before it. -/
def Path.looksLikeAuthority : Path → Bool
  | .segments ("" :: _ :: _) => true
  | _ => false

/-- An optional part with the sign before it. -/
def renderPart (sign : String) : Option String → String
  | some text => sign ++ text
  | none => ""

def render (url : Url) : String :=
  let place :=
    match url.authority with
    | some authority => authority.render
    | none => if url.path.looksLikeAuthority then "/." else ""
  url.scheme ++ ":" ++ place ++ url.path.render ++ renderPart "?" url.query
    ++ renderPart "#" url.fragment

/-- What reads absolute addresses.  All that is taken for granted of it is that it reads a
text in one way, whenever it is asked. -/
class Reader where
  /-- The address that a text spells, or why it spells none -/
  read : String → Except ParseError Url

/-- Reads an absolute address. -/
def parse [Reader] (text : String) : Except ParseError Url := Reader.read text

end Url

end KerberosHttp
