import Listing.Connection.Settings
import Listing.Execution
import Listing.Wire.Cell
import Listing.Wire.Parameter

namespace Listing.Connection

open Wire

/-- What the server says of a statement. -/
structure Description where
  parameters : List ColumnType
  columns : List (String × ColumnType)
  deriving DecidableEq, Repr

/-- The bytes of one row, or none for a null. -/
abbrev WireRow := List (Option Bytes)

/-- What a server replies when it is asked for a description or for rows. -/
structure Replies where
  describe : String → Except ServerError Description
  execute : String → List (Option Bytes) → Except ServerError (List WireRow)

structure Server where
  accept : Except ServerError Unit
  replies : Replies

namespace Server

def describe (server : Server) : String → Except ServerError Description :=
  server.replies.describe

def execute (server : Server) :
    String → List (Option Bytes) → Except ServerError (List WireRow) :=
  server.replies.execute

end Server

structure Script where
  description : Description
  rows : List WireRow
  refusal : Option ServerError := none
  failure : Option ServerError := none
  deriving Repr

def Server.ofScripts (accept : Except ServerError Unit) (script : String → Script) : Server where
  accept
  replies.describe sql :=
    match (script sql).refusal with
    | some e => .error e
    | none => .ok (script sql).description
  replies.execute sql _ :=
    match (script sql).failure with
    | some e => .error e
    | none => .ok (script sql).rows

/-- What a session has seen: the statements described so far, which are not described again, and
the values of every execution. -/
structure Session where
  described : Keyed Description := []
  descriptions : Nat := 0
  executed : List (String × List (Option Bytes)) := []
  deriving Repr

namespace Replies

def describeOn (replies : Replies) (sql : String) :
    StateM Session (Except ServerError Description) := do
  match replies.describe sql with
  | .ok d =>
    modify fun s ↦
      { s with described := s.described.put sql d, descriptions := s.descriptions + 1 }
    return .ok d
  | .error e => return .error e

def executeOn (replies : Replies) (sql : String) (values : List (Option Bytes)) :
    StateM Session (Except ServerError (List WireRow)) := do
  modify fun s ↦ { s with executed := s.executed ++ [(sql, values)] }
  return replies.execute sql values

end Replies

/-- A statement under way: what it asks of the server next, and how it goes on from the reply. -/
inductive Fetch (α : Type)
  | done (outcome : Except QueryError α)
  | describing (sql : String) (next : Except ServerError Description → Fetch α)
  | executing (sql : String) (values : List (Option Bytes))
      (next : Except ServerError (List WireRow) → Fetch α)

namespace Fetch

variable {α β : Type}

def settle : Fetch α → StateM Session (Fetch α)
  | describing sql next => do
    match (← get).described.get? sql with
    | some d => return next (.ok d)
    | none => return describing sql next
  | fetch => return fetch

def reply (replies : Replies) : Fetch α → StateM Session (Fetch α)
  | done outcome => return done outcome
  | describing sql next => return next (← replies.describeOn sql)
  | executing sql values next => return next (← replies.executeOn sql values)

def finish (replies : Replies) : Fetch α → StateM Session (Except QueryError α)
  | done outcome => return outcome
  | describing sql next => do finish replies (next (← replies.describeOn sql))
  | executing sql values next => do finish replies (next (← replies.executeOn sql values))

end Fetch

inductive Turn
  | page
  | count
  deriving DecidableEq, Repr

/-- Two statements under way until one fails or both are done. Each has replies of its own, which
come in the given order; those that are left come for the page first. -/
def Fetch.both {α β : Type} (replies : Turn → Replies) :
    List Turn → Fetch α → Fetch β → StateM Session (Except QueryError (α × β))
  | _, .done (.error e), _ => return .error e
  | _, _, .done (.error e) => return .error e
  | .page :: turns, page, count => do
    Fetch.both replies turns (← page.reply (replies .page)) count
  | .count :: turns, page, count => do
    Fetch.both replies turns page (← count.reply (replies .count))
  | [], page, count => do
    match ← page.finish (replies .page) with
    | .error e => return .error e
    | .ok a => return (← count.finish (replies .count)).map (a, ·)

def failed (s : Statement) (f : Failure) : QueryError := f.queryError.inSql s.sql

/-- Lists are written out in a statement, so that none is left among its values. -/
def checkScalars (values : List FilterValue) : Except Failure Unit :=
  if values.any FilterValue.isList then
    .error (.parameter "list values must be expanded into placeholders before binding")
  else .ok ()

def encodeFrom (index : Nat) : List ColumnType → List FilterValue →
    Except ServerError (List (Option Bytes))
  | t :: types, v :: values =>
    match encode t v with
    | .error _ => .error (.unboundParameter index)
    | .ok bytes => (encodeFrom (index + 1) types values).map (bytes :: ·)
  | _, _ => .ok []

def encodeAll (types : List ColumnType) (values : List FilterValue) :
    Except ServerError (List (Option Bytes)) :=
  if types.length = values.length then encodeFrom 0 types values
  else .error (.parameterCount types.length values.length)

def Fetch.ofStatement {α : Type} (s : Statement)
    (read : Description → List WireRow → Except QueryError α) : Fetch α :=
  match checkScalars s.params with
  | .error f => .done (.error (failed s f))
  | .ok () =>
    .describing s.sql fun
      | .error e => .done (.error (failed s (.server e)))
      | .ok d =>
        match encodeAll d.parameters s.params with
        | .error e => .done (.error (failed s (.server e)))
        | .ok values =>
          .executing s.sql values fun
            | .error e => .done (.error (failed s (.server e)))
            | .ok rows => .done (read d rows)

/-- The cells from the given index on, each by the name of its column. Of columns with one name the
last one counts. -/
def readCells (index : Nat) (row : Row) : List (String × ColumnType) → WireRow →
    Except ServerError Row
  | (name, t) :: columns, cell :: cells =>
    match t.read? cell with
    | some d => readCells (index + 1) (row.put name d) columns cells
    | none => .error (.unreadableColumn index)
  | _, _ => .ok row

def readRow (columns : List (String × ColumnType)) (row : WireRow) : Except ServerError Row :=
  readCells 0 [] columns row

def readRows (columns : List (String × ColumnType)) (rows : List WireRow) :
    Except ServerError (List Row) :=
  rows.mapM (readRow columns)

def readPage (s : Statement) (d : Description) (rows : List WireRow) :
    Except QueryError (List Row) :=
  (readRows d.columns rows).mapError fun e ↦
    let text := (Failure.server e).text
    ((QueryError.of (.undecodable text)).inSql s.sql).causedBy (.external text)

/-- The first cell of the only row, which has to be a 64-bit integer. -/
def totalOf (d : Description) (rows : List WireRow) : Except ServerError Int :=
  match rows with
  | [row] =>
    match d.columns, row with
    | (_, .int8) :: _, some bytes :: _ =>
      match int? 8 bytes with
      | some i => .ok i
      | none => .error (.unreadableColumn 0)
    | [], _ => .error (.missingColumn 0)
    | _, _ => .error (.unreadableColumn 0)
  | _ => .error .rowCount

def readTotal (s : Statement) (d : Description) (rows : List WireRow) : Except QueryError Nat :=
  match totalOf d rows with
  | .ok i => .ok i.toNat
  | .error e => .error (failed s (.server e))

/-- The server answers in the order in which it is asked, and every statement asks at most twice. -/
def inOrder : List Turn := [.page, .count, .page, .count]

def fetchOn (replies : Turn → Replies) (turns : List Turn) (page count : Statement) :
    StateM Session (Except QueryError RawPage) := do
  let rows ← (Fetch.ofStatement page (readPage page)).settle
  let total ← (Fetch.ofStatement count (readTotal count)).settle
  let answer ← Fetch.both replies turns rows total
  return answer.map fun (rows, total) ↦ ⟨rows, total⟩

end Listing.Connection
