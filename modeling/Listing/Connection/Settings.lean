import Listing.Connection.Failure
import Listing.Text.Utf8

namespace Listing.Connection

open Number

inductive SslMode
  | disable
  | prefer
  | require
  deriving DecidableEq, Repr

namespace SslMode

def name : SslMode → String
  | disable => "disable"
  | prefer => "prefer"
  | require => "require"

def ofName? (s : String) : Option SslMode := [disable, prefer, require].find? fun m ↦ m.name = s

end SslMode

/-- Durations are in milliseconds. -/
structure Settings where
  host : String
  port : Nat
  database : String
  user : String
  password : Option String
  sslMode : SslMode
  connectTimeout : Nat
  statementTimeout : Option Nat
  applicationName : Option String
  deriving DecidableEq, Repr

namespace Settings

def defaultPort : Nat := 5432

def defaultUser : String := "postgres"

def ofDatabase (database : String) : Settings where
  host := "localhost"
  port := defaultPort
  database
  user := defaultUser
  password := none
  sslMode := .prefer
  connectTimeout := 30000
  statementTimeout := none
  applicationName := none

abbrev Result (α : Type) := Except SettingProblem α

def schemes : List String := ["postgresql", "postgres"]

def ofLocation (l : Location) : Result Settings :=
  let database := String.ofList (l.path.toList.dropWhile (· = '/'))
  if database = "" then .error .noDatabase
  else .ok { ofDatabase database with
    host := l.host
    port := l.port.getD defaultPort
    user := if l.user = "" then defaultUser else l.user
    password := l.password }

def word? (s : String) : Option Nat := (readWord s.toList).toOption

def setOption (s : Settings) (name value : String) : Result Settings :=
  match name with
  | "sslmode" =>
    match SslMode.ofName? value with
    | some mode => .ok { s with sslMode := mode }
    | none => .error (.sslMode value)
  | "connect_timeout" =>
    match word? value with
    | some seconds => .ok { s with connectTimeout := 1000 * seconds }
    | none => .error .connectTimeout
  | "statement_timeout" =>
    match word? value with
    | some milliseconds => .ok { s with statementTimeout := some milliseconds }
    | none => .error .statementTimeout
  | "application_name" => .ok { s with applicationName := some value }
  | other => .error (.unsupported other)

/-- The settings of a URL. Later pairs of its query win, and unknown ones are refused. -/
def ofUrl (text : String) : Result Settings := do
  let url ← (Url.read text).mapError .url
  if schemes.contains url.scheme then
    match url.location with
    | none => .error .noHost
    | some l =>
      let s ← ofLocation l
      (Text.formPairs l.query.toList).foldlM (fun s pair ↦ s.setOption pair.1 pair.2) s
  else .error (.scheme url.scheme)

def urlVariable : String := "DATABASE_URL"

def ofEnvironment : Option String → Result Settings
  | some url => ofUrl url
  | none => .error (.unsetVariable urlVariable)

structure Choice where
  url : Option String := none
  host : Option String := none
  port : Option Nat := none
  database : Option String := none
  user : Option String := none
  password : Option String := none
  sslMode : Option SslMode := none
  connectTimeout : Option Nat := none
  statementTimeout : Option Nat := none
  applicationName : Option String := none
  deriving DecidableEq, Repr

/-- The settings of the URL, if one is given; without one, a database has to be. -/
def Choice.start (c : Choice) : Result Settings :=
  match c.url, c.database with
  | some url, _ => ofUrl url
  | none, some database => .ok (ofDatabase database)
  | none, none => .error .databaseRequired

def ofChoice (c : Choice) : Result Settings :=
  c.start.map fun s ↦
    { host := c.host.getD s.host
      port := c.port.getD s.port
      database := c.database.getD s.database
      user := c.user.getD s.user
      password := c.password <|> s.password
      sslMode := c.sslMode.getD s.sslMode
      connectTimeout := c.connectTimeout.getD s.connectTimeout
      statementTimeout := c.statementTimeout <|> s.statementTimeout
      applicationName := c.applicationName <|> s.applicationName }

def redactedUrl (s : Settings) : String :=
  let credentials := if s.password.isSome then s.user ++ ":***" else s.user
  "postgresql://" ++ credentials ++ "@" ++ s.host ++ ":" ++ toString s.port ++ "/" ++ s.database ++
    "?sslmode=" ++ s.sslMode.name

/-- A host that begins with a slash is the directory of a socket. -/
def isSocket (s : Settings) : Bool := s.host.toList.head? = some '/'

def serverOptions (s : Settings) : Option String :=
  s.statementTimeout.map fun milliseconds ↦ s!"-c statement_timeout={milliseconds}"

def startup (s : Settings) : List (String × String) :=
  (s.applicationName.map (("application_name", ·))).toList ++
    [("client_encoding", "UTF8"), ("database", s.database)] ++
    (s.serverOptions.map (("options", ·))).toList ++ [("user", s.user)]

end Settings

end Listing.Connection
