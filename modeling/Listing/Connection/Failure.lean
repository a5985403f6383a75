import Listing.Connection.Url
import Listing.Error

namespace Listing.Connection

/-- What is wrong with the settings of a connection or of a pool. -/
inductive SettingProblem
  | url (problem : UrlProblem)
  | scheme (name : String)
  | noHost
  | noDatabase
  | sslMode (text : String)
  | connectTimeout
  | statementTimeout
  | unsupported (name : String)
  | unsetVariable (name : String)
  | databaseRequired
  | noConnections
  | noTarget
  | other (message : String)
  deriving DecidableEq, Repr

def SettingProblem.message : SettingProblem → String
  | url problem => "invalid database URL: " ++ problem.message
  | scheme name => s!"invalid scheme: expected 'postgresql' or 'postgres', got '{name}'"
  | noHost => "missing host in URL"
  | noDatabase => "missing database name in URL"
  | sslMode text => s!"invalid sslmode: {text}"
  | connectTimeout => "invalid connect_timeout"
  | statementTimeout => "invalid statement_timeout"
  | unsupported name => s!"unsupported connection parameter: {name}"
  | unsetVariable name => s!"{name} is not set"
  | databaseRequired => "database name is required"
  | noConnections => "max_connections must be at least 1"
  | noTarget => "no database URL or config provided"
  | other message => message

/-- What the driver reports of a server. -/
inductive ServerError
  | response (sqlState message : String)
  | closed
  | timeout
  | tls
  | unboundParameter (index : Nat)
  | parameterCount (expected given : Nat)
  | rowCount
  | missingColumn (index : Nat)
  | unreadableColumn (index : Nat)
  deriving DecidableEq, Repr

def ServerError.text : ServerError → String
  | response _ _ => "db error"
  | closed => "connection closed"
  | timeout => "timeout waiting for server"
  | tls => "error performing TLS handshake"
  | unboundParameter index => s!"error serializing parameter {index}"
  | parameterCount expected given => s!"expected {expected} parameters but got {given}"
  | rowCount => "query returned an unexpected number of rows"
  | missingColumn index => s!"invalid column `{index}`"
  | unreadableColumn index => s!"error deserializing column {index}"

inductive PoolStep
  | wait
  | create
  | recycle
  deriving DecidableEq, Repr

def PoolStep.name : PoolStep → String
  | wait => "Wait"
  | create => "Create"
  | recycle => "Recycle"

inductive PoolError
  | timeout (step : PoolStep)
  | closed
  | noRuntime
  | server (e : ServerError)
  deriving DecidableEq, Repr

def PoolError.text : PoolError → String
  | timeout .wait => "Timeout occurred while waiting for a slot to become available"
  | timeout .create => "Timeout occurred while creating a new object"
  | timeout .recycle => "Timeout occurred while recycling an object"
  | closed => "Pool has been closed"
  | noRuntime => "No runtime specified"
  | server e => "Error occurred while creating a new object: " ++ e.text

inductive Failure
  | pool (e : PoolError)
  | server (e : ServerError)
  | settings (problem : SettingProblem)
  | connection (message : String)
  | parameter (message : String)
  | timeout (milliseconds : Nat)
  deriving DecidableEq, Repr

namespace Failure

def text : Failure → String
  | pool e => "pool error: " ++ e.text
  | server e => "postgres error: " ++ e.text
  | settings problem => "configuration error: " ++ problem.message
  | connection message => "connection error: " ++ message
  | parameter message => "type conversion error: " ++ message
  | timeout milliseconds => s!"operation timed out after {milliseconds}ms"

def isConnection : Failure → Bool
  | pool _ | connection _ | server .closed => true
  | _ => false

def isTimeout : Failure → Bool
  | timeout _ | pool (.timeout _) => true
  | _ => false

/-- What the server says of an error counts more than what the driver does. -/
def queryError : Failure → QueryError
  | pool (.timeout step) => .of (.poolTimeout step.name)
  | pool e => (QueryError.of (.connection e.text)).causedBy (.external e.text)
  | server .closed =>
    (QueryError.of (.connection ServerError.closed.text)).causedBy
      (.external ServerError.closed.text)
  | server (.response sqlState message) =>
    ((QueryError.of (.database message)).withHelp ("SQLSTATE " ++ sqlState)).causedBy
      (.external (ServerError.response sqlState message).text)
  | server e => (QueryError.of (.database e.text)).causedBy (.external e.text)
  | settings problem => .configuration (.other problem.message)
  | connection message => .of (.connection message)
  | parameter message => .of (.parameter message)
  | timeout milliseconds => .of (.connectionTimeout milliseconds)

end Failure

end Listing.Connection
