import Listing.Path
import Listing.Text.LowerCase

namespace Listing

inductive ErrorCode
  | invalidFilterValue
  | missingRelation
  | invalidRelation
  | connectionFailed
  | connectionTimeout
  | invalidParameter
  | databaseError
  | undecodable
  | invalidConfiguration
  | internal
  deriving DecidableEq, Repr

namespace ErrorCode

def text : ErrorCode → String
  | invalidFilterValue => "BQ1003"
  | missingRelation => "BQ1006"
  | invalidRelation => "BQ1007"
  | connectionFailed => "BQ3001"
  | connectionTimeout => "BQ3003"
  | invalidParameter => "BQ5003"
  | databaseError => "BQ5005"
  | undecodable => "BQ6003"
  | invalidConfiguration => "BQ7001"
  | internal => "BQ9001"

def description : ErrorCode → String
  | invalidFilterValue => "Invalid filter value"
  | missingRelation => "Missing required relation"
  | invalidRelation => "Invalid query relation"
  | connectionFailed => "Database connection failed"
  | connectionTimeout => "Connection timeout"
  | invalidParameter => "Invalid parameter"
  | databaseError => "Database error"
  | undecodable => "Deserialization error"
  | invalidConfiguration => "Invalid configuration"
  | internal => "Internal error"

def isConfiguration : ErrorCode → Bool
  | invalidFilterValue | missingRelation | invalidRelation | invalidParameter
  | invalidConfiguration => true
  | _ => false

def isConnection : ErrorCode → Bool
  | connectionFailed | connectionTimeout => true
  | _ => false

def isTimeout (c : ErrorCode) : Bool := c = connectionTimeout

end ErrorCode

inductive FieldProblem
  | undeclared (relation : Path)
  | noColumn (entity column : String)
  | other (message : String)
  deriving DecidableEq, Repr

def FieldProblem.message : FieldProblem → String
  | undeclared relation => s!"relation '{relation}' is not declared"
  | noColumn entity column => s!"'{entity}' has no column '{column}'"
  | other message => message

inductive ConfigurationProblem
  | unknownEntity (name : String)
  | noPrimaryKey (entity : String)
  | unknownTarget (entity relation target : String)
  | noJoinColumns (entity relation : String)
  | unknownJoinColumns (entity relation localColumn referenced : String)
  | unknownListing (name : String) (known : List String)
  | malformed (document : String)
  | unreachable (document location reason : String)
  | other (message : String)
  deriving DecidableEq, Repr

def ConfigurationProblem.message : ConfigurationProblem → String
  | unknownEntity name => s!"Unknown entity '{name}'"
  | noPrimaryKey entity => s!"Entity '{entity}' declares no primary key"
  | unknownTarget entity relation target =>
    s!"Relation '{entity}.{relation}' targets unknown entity '{target}'"
  | noJoinColumns entity relation => s!"Relation '{entity}.{relation}' declares no join columns"
  | unknownJoinColumns entity relation localColumn referenced =>
    s!"Relation '{entity}.{relation}' joins unknown columns {localColumn} = {referenced}"
  | unknownListing name _ => s!"Unknown listing '{name}'"
  | malformed document => s!"Invalid {document}: "
  | unreachable document location reason => s!"Cannot read {document} {location}: {reason}"
  | other message => message

inductive Cause
  | missingRelations (paths : List Path)
  | invalidField (field : String) (problem : FieldProblem)
  | unknownRelation (model : String) (path : Path)
  | invalidFilterValue (field message : String)
  | invalidInput (field message : String)
  | parameter (message : String)
  | configuration (problem : ConfigurationProblem)
  | connection (message : String)
  | connectionTimeout (milliseconds : Nat)
  /-- No pooled connection in time, at the named step. -/
  | poolTimeout (step : String)
  | database (message : String)
  | undecodable (message : String)
  | internal (message : String)
  | refusedByStore (message : String)
  /-- In a store's own words, under a code of its choice. -/
  | told (code : ErrorCode) (message : String)
  deriving DecidableEq, Repr

namespace Cause

def code : Cause → ErrorCode
  | missingRelations _ => .missingRelation
  | invalidField _ _ | unknownRelation _ _ | refusedByStore _ => .invalidRelation
  | invalidFilterValue _ _ => .invalidFilterValue
  | invalidInput _ _ | parameter _ => .invalidParameter
  | configuration _ => .invalidConfiguration
  | connection _ => .connectionFailed
  | connectionTimeout _ | poolTimeout _ => .connectionTimeout
  | database _ => .databaseError
  | undecodable _ => .undecodable
  | internal _ => .internal
  | told code _ => code

def message : Cause → String
  | missingRelations paths =>
    "Missing required relation(s) for select: " ++ Text.join ", " paths
  | invalidField field problem =>
    "Invalid query relation for '" ++ field ++ "': " ++ problem.message
  | unknownRelation model path => s!"Relation '{path}' does not exist on {model}"
  | invalidFilterValue field message => s!"Invalid filter value for {field}: {message}"
  | invalidInput field message => s!"Invalid input for {field}: {message}"
  | parameter message => message
  | configuration problem => problem.message
  | connection message => s!"Connection error: {message}"
  | connectionTimeout milliseconds => s!"Connection timed out after {milliseconds}ms"
  | poolTimeout step => s!"Timed out acquiring a pooled connection ({step})"
  | database message => message
  | undecodable message => s!"Failed to deserialize result: {message}"
  | internal message => s!"Internal error: {message}"
  | refusedByStore message => s!"Query configuration rejected by storage: {message}"
  | told _ message => message

end Cause

structure Suggestion where
  text : String
  code : Option String
  deriving DecidableEq, Repr

structure Context where
  operation : Option String := none
  model : Option String := none
  field : Option String := none
  paths : List Path := []
  sql : Option String := none
  suggestions : List Suggestion := []
  help : Option String := none
  deriving DecidableEq, Repr

def quoted (s : String) : String := "\"" ++ s ++ "\""

namespace Cause

def advice : Cause → List String
  | invalidField _ _ =>
    ["Check the field name against the entity's columns",
      "Declare the relation the field belongs to in `relations`"]
  | unknownRelation _ _ => ["Check each dotted segment against the entity's relations"]
  | configuration (.unknownListing _ known) => ["Known listings: " ++ Text.join ", " known]
  | connection _ =>
    ["Check that the database server is running", "Verify the connection URL is correct"]
  | connectionTimeout _ => ["Increase the connect_timeout in your connection string"]
  | poolTimeout _ => ["Raise the pool size or the pool wait timeout"]
  | database _ => ["Check the database logs for more details"]
  | undecodable _ => ["Check that the target type matches the selected columns"]
  | _ => []

def suggestions : Cause → List Suggestion
  | missingRelations paths =>
    [⟨"Declare every relation whose fields are selected",
      some ("relations = [" ++ Text.join ", " (paths.map quoted) ++ "]")⟩]
  | cause => cause.advice.map fun text ↦ ⟨text, none⟩

def context (cause : Cause) : Context :=
  let start : Context := { suggestions := cause.suggestions }
  match cause with
  | missingRelations paths => { start with paths := paths }
  | invalidField field _ | invalidFilterValue field _ | invalidInput field _ =>
    { start with field := some field }
  | unknownRelation model path => { start with model := some model, paths := [path] }
  | refusedByStore _ =>
    { start with help := some "Check declared relations, selected columns and sort/search fields" }
  | _ => start

end Cause

inductive Origin
  | external (text : String)
  | listing (cause : Cause) (context : Context)
  deriving DecidableEq, Repr

def bracketed (code : ErrorCode) (message : String) : String :=
  "[" ++ code.text ++ "] " ++ message

def Origin.text : Origin → String
  | external text => text
  | listing cause _ => bracketed cause.code cause.message

structure QueryError where
  cause : Cause
  context : Context
  /-- The nearest origin comes first. -/
  trail : List Origin
  deriving DecidableEq, Repr

namespace QueryError

def of (cause : Cause) : QueryError := ⟨cause, cause.context, []⟩

def configuration (problem : ConfigurationProblem) : QueryError := of (.configuration problem)

def code (e : QueryError) : ErrorCode := e.cause.code

def message (e : QueryError) : String := e.cause.message

def text (e : QueryError) : String := bracketed e.code e.message

def during (e : QueryError) (operation : String) : QueryError :=
  { e with context := { e.context with operation := some operation } }

def onModel (e : QueryError) (model : String) : QueryError :=
  { e with context := { e.context with model := some model } }

def onField (e : QueryError) (field : String) : QueryError :=
  { e with context := { e.context with field := some field } }

def inSql (e : QueryError) (sql : String) : QueryError :=
  { e with context := { e.context with sql := some sql } }

def suggest (e : QueryError) (text : String) (code : Option String) : QueryError :=
  { e with context := { e.context with suggestions := e.context.suggestions ++ [⟨text, code⟩] } }

def withHelp (e : QueryError) (help : String) : QueryError :=
  { e with context := { e.context with help := some help } }

def causedBy (e : QueryError) (origin : Origin) : QueryError := { e with trail := [origin] }

def shapeWords : List String := ["join", "alias", "column", "relation"]

def mentionsShape (message : String) : Bool :=
  shapeWords.any fun word ↦ Text.occursIn word.toList (Text.lower message).toList

/-- An error of the store that speaks of the shape of the query is a mistake of the query, and keeps
the first error as its origin. Mistakes of the query and failed connections stay what they are. -/
def classify (e : QueryError) : QueryError :=
  if e.code.isConfiguration || e.code.isConnection || !mentionsShape e.message then e
  else
    let cause : Cause := .refusedByStore e.message
    ⟨cause, { cause.context with sql := e.context.sql }, .listing e.cause e.context :: e.trail⟩

end QueryError

end Listing
