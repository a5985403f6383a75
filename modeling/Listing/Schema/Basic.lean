import Listing.Error
import Listing.Keyed

namespace Listing

inductive RelationKind
  | oneToOne
  | oneToMany
  | manyToOne
  | manyToMany
  deriving DecidableEq, Repr

def RelationKind.isMany : RelationKind → Bool
  | oneToMany | manyToMany => true
  | oneToOne | manyToOne => false

def RelationKind.isOne (k : RelationKind) : Bool := !k.isMany

structure Column where
  name : String
  /-- Virtual columns are computed elsewhere and not stored in the table. -/
  isVirtual : Bool
  deriving DecidableEq, Repr

structure JoinPair where
  /-- On the entity that declares the relation. -/
  localColumn : String
  referenced : String
  deriving DecidableEq, Repr

/-- A table of pairs between two entities. -/
structure JoinTable where
  table : String
  sourceColumn : String
  targetColumn : String
  deriving DecidableEq, Repr

structure Relation where
  name : String
  target : String
  kind : RelationKind
  joinColumns : List JoinPair
  joinTable : Option JoinTable
  /-- Whether the declaring entity holds the foreign key, where that is not left to the kind. -/
  owning : Option Bool
  deriving DecidableEq, Repr

namespace Relation

def isOwning (r : Relation) : Bool :=
  r.owning.getD (r.kind = .manyToOne || r.kind = .oneToOne)

def foreignKeys (r : Relation) : List String :=
  if !r.isOwning || r.joinTable.isSome then [] else (r.joinColumns.map (·.localColumn)).eraseDups

end Relation

structure Entity where
  name : String
  table : String
  primaryKey : List String
  columns : List Column
  relations : List Relation
  /-- The column that says when a row was deleted. -/
  softDelete : Option String
  deriving DecidableEq, Repr

namespace Entity

def hasColumn (e : Entity) (name : String) : Bool :=
  e.columns.any fun c ↦ !c.isVirtual && c.name == name

def declaresColumn (e : Entity) (name : String) : Bool := e.columns.any fun c ↦ c.name == name

def physicalColumns (e : Entity) : List String :=
  ((e.columns.filter fun c ↦ !c.isVirtual).map (·.name)).eraseDups

def relation? (e : Entity) (name : String) : Option Relation :=
  e.relations.find? fun r ↦ r.name == name

def relationsByName (e : Entity) : Keyed Relation :=
  Keyed.ofEntries (e.relations.map fun r ↦ (r.name, r))

def foreignKeys (e : Entity) : List String := (e.relations.flatMap (·.foreignKeys)).eraseDups

end Entity

/-- Entities by the names that relations refer to. -/
structure Schema where
  entities : Keyed Entity
  deriving DecidableEq, Repr

namespace Schema

def entity? (s : Schema) (name : String) : Option Entity := s.entities.get? name

def register (s : Schema) (e : Entity) : Schema := ⟨s.entities.put e.name e⟩

def ofEntities (es : List Entity) : Schema := es.foldl register ⟨[]⟩

def requireEntity (s : Schema) (name : String) : Except QueryError Entity :=
  match s.entity? name with
  | some e => .ok e
  | none => .error ((QueryError.configuration (.unknownEntity name)).onModel name)

structure Hop where
  path : Path
  parent : Entity
  relation : Relation
  target : Entity
  deriving DecidableEq, Repr

/-- Follows relations by name from `current`. The paths given are those up to each step. -/
def walk (s : Schema) (root current : Entity) : List Path → Except QueryError (List Hop)
  | [] => .ok []
  | p :: ps =>
    match current.relation? p.leaf with
    | none => .error (.of (.unknownRelation root.name p))
    | some r =>
      match s.entity? r.target with
      | none => .error (.configuration (.unknownTarget current.name r.name r.target))
      | some target => do
        let hops ← s.walk root target ps
        return ⟨p, current, r, target⟩ :: hops

def resolvePath (s : Schema) (root : Entity) (p : Path) : Except QueryError (List Hop) :=
  if p.isWellFormed then s.walk root root p.ancestors
  else .error (.of (.unknownRelation root.name p))

def targetOf (s : Schema) (root : Entity) (p : Path) : Except QueryError Entity := do
  let hops ← s.resolvePath root p
  return (hops.getLast?.map (·.target)).getD root

def ownerOf (s : Schema) (root : Entity) (f : Field) : Except QueryError Entity :=
  match f.relation with
  | some p => s.targetOf root p
  | none => .ok root

def pairProblem? (e target : Entity) (r : Relation) : Option ConfigurationProblem :=
  if r.joinTable.isSome then none
  else
    (r.joinColumns.find? fun j ↦
        !e.hasColumn j.localColumn || !target.hasColumn j.referenced).map fun j ↦
      .unknownJoinColumns e.name r.name j.localColumn j.referenced

def relationProblem? (s : Schema) (e : Entity) (r : Relation) : Option ConfigurationProblem :=
  match s.entity? r.target with
  | none => some (.unknownTarget e.name r.name r.target)
  | some target =>
    if r.joinColumns.isEmpty then some (.noJoinColumns e.name r.name) else pairProblem? e target r

def entityProblem? (s : Schema) (e : Entity) : Option ConfigurationProblem :=
  if e.primaryKey.isEmpty then some (.noPrimaryKey e.name)
  else e.relations.findSome? (s.relationProblem? e)

def problem? (s : Schema) : Option ConfigurationProblem :=
  s.entities.findSome? fun (_, e) ↦ s.entityProblem? e

def check (s : Schema) : Except QueryError Unit :=
  match s.problem? with
  | some problem => .error (.configuration problem)
  | none => .ok ()

end Schema

end Listing
