import Listing.Plan.Basic
import Listing.Statement.Basic

namespace Listing

namespace Draft

def selected (c : SelectColumn) : Draft := column c.column ++ [.word " AS ", .name c.output]

/-- Without columns everything of the root is selected. -/
def selection (p : Plan) : Draft :=
  if p.select.isEmpty then [.name p.rootName, .word ".*"]
  else separated ", " (p.select.map selected)

def equal (pair : ColumnRef × ColumnRef) : Draft := column pair.1 ++ .word " = " :: column pair.2

def link (l : Link) : Draft :=
  .word " LEFT JOIN " :: .name l.table :: .word " AS " :: .name l.name :: .word " ON " ::
    equal l.onParent

def join (j : Join) : Draft :=
  (match j.link with
    | some l => link l
    | none => []) ++
  .word " LEFT JOIN " :: .name j.table :: .word " AS " :: .name j.name :: .word " ON " ::
    (separated " AND " (j.on.map equal) ++
      match j.softDelete with
      | some c => .word " AND " :: (column c ++ [.word " IS NULL"])
      | none => [])

def tables (p : Plan) : Draft :=
  .word " FROM " :: .name p.rootTable :: .word " AS " :: .name p.rootName :: p.joins.flatMap join

def conjunction (p : Plan) : Draft :=
  separated " AND " (p.predicates.map (predicate p.bindings))

def restriction (p : Plan) : Draft :=
  if p.predicates.isEmpty then [] else .word " WHERE " :: conjunction p

def body (p : Plan) : Draft := tables p ++ restriction p

/-- The order of the plan; under a join to many the keys of the root come last in it. -/
def fullOrder (p : Plan) : List OrderBy :=
  let sorted := p.order.map (·.column)
  let keys := if p.hasToMany then p.rootKeys.eraseDups else []
  p.order ++ (keys.filter (!sorted.contains ·)).map fun c ↦ ⟨c, .asc⟩

/-- A group is ordered by its least column when ascending, by its greatest when descending. -/
def ordered (grouped : Bool) (o : OrderBy) : Draft :=
  let key := if grouped then
      let aggregate := match o.order with
        | .asc => "MIN("
        | .desc => "MAX("
      .word aggregate :: (column o.column ++ [.word ")"])
    else column o.column
  key ++ [.word " ", .word o.order.sql]

def ordering (p : Plan) (grouped : Bool) : Draft :=
  match fullOrder p with
  | [] => []
  | orders => .word " ORDER BY " :: separated ", " (orders.map (ordered grouped))

def window (p : Plan) : Draft := [.word " ", .word p.window.sql]

def pageKeysName : String := "page_keys"

def pageKeys (p : Plan) : Draft :=
  let keys := columns p.rootKeys
  let outer := if 1 < p.primaryKey.length then .word "(" :: (keys ++ [.word ")"]) else keys
  outer ++ .word " IN (SELECT " :: (columns (p.primaryKey.map fun c ↦ ⟨pageKeysName, c⟩) ++
    .word " FROM (SELECT " :: (keys ++ body p ++ .word " GROUP BY " :: (keys ++
      ordering p true ++ window p ++
        [.word ") AS ", .name pageKeysName, .word ")"])))

def select (p : Plan) : Draft :=
  .word "SELECT " :: (selection p ++
    if p.hasToMany then
      tables p ++
        (if p.predicates.isEmpty then [.word " WHERE "]
          else .word " WHERE (" :: (conjunction p ++ [.word ") AND "])) ++
        pageKeys p ++ ordering p false
    else body p ++ ordering p false ++ window p)

/-- What is counted: the distinct keys of the root, in the form a dialect has for several of
them. -/
def countedKeys (d : Dialect) (keys : List ColumnRef) : Draft :=
  match keys with
  | [key] => column key
  | _ =>
    match d with
    | .postgres => .word "(" :: (columns keys ++ [.word ")"])
    | .mysql => columns keys
    | .sqlite => separated " || '|' || " (keys.map column)

def count (d : Dialect) (p : Plan) : Draft :=
  .word "SELECT COUNT(DISTINCT " :: (countedKeys d p.rootKeys ++
    .word ") AS " :: .name "total" :: body p)

end Draft

namespace Plan

def selectStatement (p : Plan) (d : Dialect) : Except QueryError Statement :=
  (Draft.select p).statement? d

def countStatement (p : Plan) (d : Dialect) : Except QueryError Statement :=
  (Draft.count d p).statement? d

end Plan

end Listing
