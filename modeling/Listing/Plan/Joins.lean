import Listing.Plan.Basic

namespace Listing

/-- What a selection asks of the root and of each path that one of its fields ends at. -/
structure Projection where
  rootColumns : List String
  targets : Keyed (List String)
  deriving Repr

namespace Projection

def addTarget (targets : Keyed (List String)) (p : Path) (column : String) :
    Keyed (List String) :=
  let columns := (targets.get? p).getD []
  targets.put p (if columns.contains column then columns else columns ++ [column])

def ofFields (fields : List Field) (primaryKey : List String) : Projection :=
  { rootColumns :=
      (fields.filterMap (fun f ↦ if f.relation.isNone then some f.column else none) ++
        primaryKey).eraseDups
    targets := fields.foldl (fun t f ↦
      match f.relation with
      | some p => addTarget t p f.column
      | none => t) [] }

/-- The sort field is selected too; on the root it comes after the primary key. -/
def withSort (p : Projection) : Option Field → Projection
  | none => p
  | some ⟨some path, column⟩ => { p with targets := addTarget p.targets path column }
  | some ⟨none, column⟩ => { p with rootColumns := (p.rootColumns ++ [column]).eraseDups }

def reached (p : Projection) : List Path := (p.targets.keys.flatMap Path.ancestors).eraseDups

end Projection

structure JoinPlanner where
  schema : Schema
  root : Entity
  exclusion : ForeignKeyExclusion := .nextHop
  withDeleted : Bool := false
  deriving Repr

structure JoinPlan where
  joins : List Join
  select : List SelectColumn
  deriving DecidableEq, Repr

namespace JoinPlanner

def excludedKeys (planner : JoinPlanner) (e : Entity) (p : Path) (reached : List Path) :
    List String :=
  match planner.exclusion with
  | .allForeignKeys => e.foreignKeys
  | .nextHop =>
    ((reached.filter fun child ↦ child.parent? == some p).filterMap fun child ↦
      e.relation? child.leaf).flatMap (·.foreignKeys)

def columnsOf (planner : JoinPlanner) (projection : Option Projection) (p : Path)
    (target : Entity) : JoinMode × List String :=
  match projection with
  | none => (.full, target.physicalColumns)
  | some projection =>
    match projection.targets.get? p with
    | some columns =>
      (.projected, (columns.filter target.hasColumn ++ target.primaryKey).eraseDups)
    | none =>
      if projection.reached.contains p then
        let excluded := planner.excludedKeys target p projection.reached
        (.projected, target.physicalColumns.filter (!excluded.contains ·))
      else (.projected, [])

/-- The condition of a join, by way of a table of pairs where the relation has one. -/
def conditionOf (hop : Schema.Hop) (name parentName : String) (t : AliasTable) :
    Except QueryError ((List (ColumnRef × ColumnRef) × Option Link) × AliasTable) :=
  match hop.relation.joinTable, hop.relation.joinColumns with
  | _, [] =>
    .error (.configuration (.noJoinColumns hop.parent.name hop.relation.name))
  | some table, keys :: _ =>
    let (linkName, t) := t.reserve (name ++ "_link")
    let link : Link := ⟨table.table, linkName,
      (⟨linkName, table.sourceColumn⟩, ⟨parentName, keys.localColumn⟩)⟩
    .ok (([(⟨name, keys.referenced⟩, ⟨linkName, table.targetColumn⟩)], some link), t)
  | none, pairs =>
    .ok ((pairs.map fun j ↦ (⟨name, j.referenced⟩, ⟨parentName, j.localColumn⟩), none), t)

def joinOf (planner : JoinPlanner) (projection : Option Projection) (p : Path) (t : AliasTable) :
    Except QueryError (Join × AliasTable) := do
  let hops ← planner.schema.resolvePath planner.root p
  match hops.getLast? with
  | none => .error (.of (.internal s!"relation path '{p}' resolved to no hops"))
  | some hop =>
    let (parentName, t) := t.resolve? p.parent?
    let (name, t) := t.resolve p
    let (mode, columns) := planner.columnsOf projection p hop.target
    let ((on, link), t) ← conditionOf hop name parentName t
    let softDelete := if planner.withDeleted then none
      else hop.target.softDelete.map fun column ↦ ⟨name, column⟩
    return ({
      path := p
      name
      parentName
      table := hop.target.table
      kind := hop.relation.kind
      many := hops.any (·.relation.kind.isMany)
      mode
      on
      softDelete
      link
      columns
      primaryKey := hop.target.primaryKey }, t)

def joinsOf (planner : JoinPlanner) (projection : Option Projection) :
    List Path → AliasTable → Except QueryError (List Join × AliasTable)
  | [], t => .ok ([], t)
  | p :: ps, t => do
    let (join, t) ← planner.joinOf projection p t
    let (joins, t) ← planner.joinsOf projection ps t
    return (join :: joins, t)

/-- A sort field matters only under a selection. -/
def projectionOf (planner : JoinPlanner) (select : Option (List String))
    (sortBy : Option String) : Option Projection :=
  select.map fun fields ↦
    (Projection.ofFields (fields.map Field.ofText) planner.root.primaryKey).withSort
      (sortBy.map Field.ofText)

def rootColumns (planner : JoinPlanner) : Option Projection → List String
  | none => planner.root.physicalColumns
  | some projection => projection.rootColumns.filter planner.root.hasColumn

def plan (planner : JoinPlanner) (relations : List Path) (select : Option (List String))
    (sortBy : Option String) (t : AliasTable) : Except QueryError (JoinPlan × AliasTable) := do
  let projection := planner.projectionOf select sortBy
  let (joins, t') ← planner.joinsOf projection (Path.expand relations) t
  let rootSelect := (planner.rootColumns projection).map (SelectColumn.ofRoot t.root)
  let joinSelect := joins.flatMap fun j ↦ j.columns.map (SelectColumn.ofJoin j.path j.name)
  return (⟨joins, rootSelect ++ joinSelect⟩, t')

end JoinPlanner

end Listing
