import Listing.Options.Validation
import Listing.Plan.Joins

namespace Listing

namespace Plan

/-- The column that records are ordered by when nothing else is said. -/
def defaultSortColumn : String := "createdAt"

def softDeletePredicates (root : Entity) (name : String) (withDeleted : Bool) : List Predicate :=
  if withDeleted then []
  else root.softDelete.toList.map fun column ↦ .null ⟨name, column⟩ false

def orderOf (root : Entity) (o : QueryOptions) (t : AliasTable) : List OrderBy × AliasTable :=
  match o.sortBy with
  | some field =>
    let (column, t) := t.column (Field.ofText field)
    ([⟨column, o.sortOrder⟩], t)
  | none =>
    if root.hasColumn defaultSortColumn then ([⟨⟨t.root, defaultSortColumn⟩, .desc⟩], t)
    else (root.primaryKey.map fun c ↦ ⟨⟨t.root, c⟩, .asc⟩, t)

def ofChecked (s : Schema) (root : Entity) (o : QueryOptions) : Except QueryError Plan := do
  let planner : JoinPlanner :=
    { schema := s, root, exclusion := o.foreignKeyExclusion, withDeleted := o.withDeleted }
  let (joined, t) ← planner.plan o.relations o.select o.sortBy (.ofRoot root.name)
  let (filtered, t) := Conditions.ofFilters o.filters t
  let (searched, t) := Conditions.ofSearch o.search o.searchFields t
  let searched := searched.getD ⟨[], []⟩
  let (order, t) := orderOf root o t
  return {
    rootEntity := root.name
    rootTable := root.table
    rootName := t.root
    primaryKey := root.primaryKey
    joins := joined.joins
    select := joined.select
    predicates := filtered.predicates ++ searched.predicates ++
      softDeletePredicates root t.root o.withDeleted
    bindings := filtered.bindings.putAll searched.bindings
    order
    window := o.window }

def compile (s : Schema) (root : String) (o : QueryOptions) : Except QueryError Plan := do
  let entity ← s.requireEntity root
  o.validate s entity
  ofChecked s entity o

end Plan

end Listing
