import Listing.Options.Basic
import Listing.Schema.Basic

namespace Listing

inductive JoinMode
  /-- All physical columns of the target. -/
  | full
  /-- Only what a selection reaches, possibly nothing. -/
  | projected
  deriving DecidableEq, Repr

/-- The table of pairs that a join passes through first. -/
structure Link where
  table : String
  name : String
  onParent : ColumnRef × ColumnRef
  deriving DecidableEq, Repr

structure Join where
  path : Path
  name : String
  parentName : String
  table : String
  kind : RelationKind
  /-- Whether some relation on the path is to many. -/
  many : Bool
  mode : JoinMode
  on : List (ColumnRef × ColumnRef)
  softDelete : Option ColumnRef
  link : Option Link
  columns : List String
  primaryKey : List String
  deriving DecidableEq, Repr

namespace Join

def isSelected (j : Join) : Bool := !j.columns.isEmpty

def text (j : Join) : String :=
  let mode := match j.mode with
    | .full => "full"
    | .projected => "projected"
  j.path ++ " AS " ++ j.name ++ " (" ++ mode ++ ": " ++ Text.join ", " j.columns ++ ")"

end Join

/-- A selected column and the name that it has in the result. -/
structure SelectColumn where
  column : ColumnRef
  output : String
  deriving DecidableEq, Repr

namespace SelectColumn

def ofRoot (name column : String) : SelectColumn := ⟨⟨name, column⟩, column⟩

def ofJoin (p : Path) (name column : String) : SelectColumn :=
  ⟨⟨name, column⟩, Field.text ⟨some p, column⟩⟩

end SelectColumn

structure OrderBy where
  column : ColumnRef
  order : SortOrder
  deriving DecidableEq, Repr

structure Plan where
  rootEntity : String
  rootTable : String
  rootName : String
  primaryKey : List String
  joins : List Join
  select : List SelectColumn
  predicates : List Predicate
  bindings : Bindings
  order : List OrderBy
  window : Window
  deriving Repr

namespace Plan

def hasToMany (p : Plan) : Bool := p.joins.any (·.many)

def join? (p : Plan) (path : Path) : Option Join := p.joins.find? fun j ↦ j.path == path

def joinPaths (p : Plan) : List Path := p.joins.map (·.path)

def whereText (p : Plan) : String := Text.join " AND " (p.predicates.map (·.text))

def rootKeys (p : Plan) : List ColumnRef := p.primaryKey.map fun c ↦ ⟨p.rootName, c⟩

end Plan

end Listing
