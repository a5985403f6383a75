import Listing.Options.Basic
import Listing.Schema.Basic

namespace Listing

def guardThat (condition : Bool) (e : QueryError) : Except QueryError Unit :=
  if condition then .ok () else .error e

def whileDoing {α : Type} (operation : String) (x : Except QueryError α) : Except QueryError α :=
  x.mapError (·.during operation)

namespace QueryOptions

def checkBounds (o : QueryOptions) : Except QueryError Unit := do
  guardThat (1 ≤ o.page) <|
    (QueryError.of (.parameter s!"page must be at least 1, got {o.page}")).onField "page"
  guardThat (1 ≤ o.limit && o.limit ≤ maxLimit) <|
    ((QueryError.of (.parameter s!"limit must be between 1 and {maxLimit}, got {o.limit}")).onField
      "limit").suggest s!"Request at most {maxLimit} rows per page" none

def checkHops (root : Entity) (hops : List Schema.Hop) : Except QueryError Unit :=
  hops.forM fun hop ↦
    guardThat (!hop.relation.joinColumns.isEmpty) <|
      ((QueryError.configuration (.noJoinColumns hop.parent.name hop.relation.name)).onModel
        root.name).suggest "Declare the join with `join_on(local, referenced)`" none

def checkRelations (s : Schema) (root : Entity) (relations : List Path) :
    Except QueryError Unit :=
  relations.forM fun p ↦ do
    let hops ← whileDoing "Resolving declared relations" (s.resolvePath root p)
    checkHops root hops

/-- The relations of selected fields that no declared path covers, each once. -/
def missingRelations (fields : List String) (declared : List Path) : List Path :=
  (fields.filterMap fun f ↦
    (Field.ofText f).relation.filter fun p ↦ !p.isCovered declared).eraseDups

def unknownColumn (shown : String) (e : Entity) : QueryError :=
  .of (.invalidField shown (.noColumn e.name (Path.leaf shown)))

def checkSelected (s : Schema) (root : Entity) (field : String) : Except QueryError Unit := do
  let f := Field.ofText field
  let e ← s.ownerOf root f
  guardThat (e.declaresColumn f.column) ((unknownColumn field e).during "Validating select")

def checkSelect (s : Schema) (root : Entity) (o : QueryOptions) : Except QueryError Unit :=
  match o.select with
  | none => .ok ()
  | some fields => do
    let missing := missingRelations fields o.relations
    guardThat missing.isEmpty <|
      ((QueryError.of (.missingRelations missing)).onModel root.name).during "Validating select"
    fields.forM (checkSelected s root)

/-- A field that is compared or sorted by has to be a physical column of a covered relation. -/
def checkField (s : Schema) (root : Entity) (declared : List Path) (f : Field) (shown : String) :
    Except QueryError Unit := do
  if let some p := f.relation then
    guardThat (p.isCovered declared) <|
      (QueryError.of (.invalidField shown (.undeclared p))).onModel root.name
  let e ← s.ownerOf root f
  guardThat (e.hasColumn f.column) ((unknownColumn shown e).onModel root.name)

def checkText (s : Schema) (root : Entity) (declared : List Path) (field : String) :
    Except QueryError Unit :=
  checkField s root declared (Field.ofText field) field

def checkFilter (s : Schema) (root : Entity) (declared : List Path) (f : FilterCondition) :
    Except QueryError Unit :=
  match f.relation with
  | some p => checkField s root declared ⟨some p, f.field⟩ (Field.text ⟨some p, f.field⟩)
  | none => checkText s root declared f.field

def validate (s : Schema) (root : Entity) (o : QueryOptions) : Except QueryError Unit := do
  o.checkBounds
  guardThat (!root.primaryKey.isEmpty) <|
    (QueryError.configuration (.noPrimaryKey root.name)).onModel root.name
  checkRelations s root o.relations
  checkSelect s root o
  whileDoing "Validating sortBy" (o.sortBy.toList.forM (checkText s root o.relations))
  whileDoing "Validating searchFields" (o.searchFields.forM (checkText s root o.relations))
  whileDoing "Validating dateField" (o.dateField.toList.forM (checkText s root o.relations))
  whileDoing "Validating filters" (o.filters.forM (checkFilter s root o.relations))

end QueryOptions

end Listing
