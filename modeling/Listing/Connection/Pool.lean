import Listing.Connection.Exchange
import Listing.Text.Quoted

namespace Listing.Connection

open Wire

/-- Durations are in milliseconds. -/
structure Limits where
  maxConnections : Nat := 10
  connectionTimeout : Option Nat := some 30000
  recycleTimeout : Option Nat := some 5000
  deriving DecidableEq, Repr

structure Pool where
  settings : Settings
  limits : Limits
  isClosed : Bool := false
  idle : List Session := []
  /-- What the server was told when the last session was opened. -/
  greeting : List (String × String) := []
  deriving Repr

structure PoolStatus where
  available : Nat
  size : Nat
  maxSize : Nat
  waiting : Nat
  deriving DecidableEq, Repr

def PoolStatus.text (s : PoolStatus) : String :=
  s!"PoolStatus \x7b available: {s.available}, size: {s.size}, max_size: {s.maxSize}, " ++
    s!"waiting: {s.waiting} \x7d"

namespace Pool

def ofSettings (settings : Settings) (limits : Limits) : Except SettingProblem Pool :=
  if limits.maxConnections = 0 then .error .noConnections else .ok { settings, limits }

def ofTarget (settings : Option Settings) (url : Option String) (limits : Limits) :
    Except SettingProblem Pool :=
  match settings, url with
  | some settings, _ => ofSettings settings limits
  | none, some url => (Settings.ofUrl url).bind (ofSettings · limits)
  | none, none => .error .noTarget

def connect (url : String) : Except SettingProblem Pool := ofTarget none (some url) {}

/-- One listing runs at a time, so that every open session is idle in between and none is waited
for. -/
def status (p : Pool) : PoolStatus :=
  if p.isClosed then ⟨0, 0, 0, 0⟩
  else ⟨p.idle.length, p.idle.length, p.limits.maxConnections, 0⟩

def text (p : Pool) : String :=
  "PgPool \x7b url: " ++ Text.quote p.settings.redactedUrl ++ ", status: " ++ p.status.text ++
    " \x7d"

def close (p : Pool) : Pool := { p with isClosed := true, idle := [] }

/-- A new session. Nothing here speaks TLS. -/
def openSession (server : Server) : StateM Pool (Except PoolError Session) := do
  let p ← get
  if p.settings.sslMode = .require then return .error (.server .tls)
  else
    set { p with greeting := p.settings.startup }
    match server.accept with
    | .ok () => return .ok {}
    | .error e => return .error (.server e)

def acquire (server : Server) : StateM Pool (Except PoolError Session) := do
  let p ← get
  if p.isClosed then return .error .closed
  else
    match p.idle with
    | session :: idle =>
      set { p with idle }
      return .ok session
    | [] => openSession server

def release (session : Session) : StateM Pool Unit :=
  modify fun p ↦ { p with idle := session :: p.idle }

/-- With a session, however it was acquired, which goes back to the pool. -/
def withSession {α : Type} (acquired : StateM Pool (Except PoolError Session))
    (act : StateM Session α) : StateM Pool (Except PoolError α) := do
  match ← acquired with
  | .error e => return .error e
  | .ok session =>
    let (a, session) := act.run session
    release session
    return .ok a

def probe : String := "SELECT 1"

def probeOn (server : Server) : StateM Session Bool := do
  modify fun s ↦ { s with descriptions := s.descriptions + 1 }
  match server.describe probe with
  | .ok _ =>
    match server.execute probe [] with
    | .ok [_] => return true
    | _ => return false
  | .error _ => return false

def isHealthy (server : Server) : StateM Pool Bool := do
  match ← withSession (acquire server) (probeOn server) with
  | .ok healthy => return healthy
  | .error _ => return false

def fetch (acquired : StateM Pool (Except PoolError Session)) (replies : Turn → Replies)
    (turns : List Turn) (page count : Statement) : StateM Pool (Except QueryError RawPage) := do
  match ← withSession acquired (fetchOn replies turns page count) with
  | .ok answer => return answer
  | .error e => return .error (Failure.pool e).queryError

def store (server : Server) : Store Pool :=
  ⟨.postgres, fetch (acquire server) (fun _ ↦ server.replies) inOrder⟩

end Pool

end Listing.Connection
