import Listing.Document
import Listing.Options.Basic

namespace Listing

mutual

def FilterValue.ofDatum? : Datum → Option FilterValue
  | .null => some .null
  | .bool b => some (.bool b)
  | .int i => some (if i ≤ Number.maxLong then .int i else .float (.ofInt i))
  | .float x => some (.float x)
  | .text s => some (.text s)
  | .list items => (filterValuesOf? items).map .list
  | .table _ | .unreadable => none

def filterValuesOf? : List Datum → Option (List FilterValue)
  | [] => some []
  | d :: ds =>
    match FilterValue.ofDatum? d, filterValuesOf? ds with
    | some v, some vs => some (v :: vs)
    | _, _ => none

end

mutual

def FilterValue.datum : FilterValue → Datum
  | .null => .null
  | .bool b => .bool b
  | .int i => .int i
  | .float x => .float x
  | .text s => .text s
  | .list items => .list (filterValueData items)

def filterValueData : List FilterValue → List Datum
  | [] => []
  | v :: vs => v.datum :: filterValueData vs

end

namespace Operator

def name : Operator → String
  | equals => "EQUALS"
  | notEquals => "NOT_EQUALS"
  | like => "LIKE"
  | ilike => "ILIKE"
  | isIn => "IN"
  | notIn => "NOT_IN"
  | gt => "GT"
  | gte => "GTE"
  | lt => "LT"
  | lte => "LTE"
  | between => "BETWEEN"
  | isNull => "IS_NULL"
  | isNotNull => "IS_NOT_NULL"

def all : List Operator :=
  [equals, notEquals, like, ilike, isIn, notIn, gt, gte, lt, lte, between, isNull, isNotNull]

def ofName? (s : String) : Option Operator := all.find? fun o ↦ o.name == s

def ofDatum? (f : DocumentFormat) (d : Datum) : Option Operator := (f.choice? d).bind ofName?

end Operator

namespace FilterCondition

def parts : List PartName := [⟨"field", []⟩, ⟨"operator", []⟩, ⟨"value", []⟩, ⟨"relation", []⟩]

def ofDatum? (f : DocumentFormat) (d : Datum) : Option FilterCondition := do
  let p ← Parts.of? parts d
  let field ← p.required "field" Datum.text?
  let operator ← p.orElse "operator" .equals (Operator.ofDatum? f)
  let value ← p.orElse "value" .null FilterValue.ofDatum?
  let relation ← p.orElse "relation" none (Datum.option? Datum.text?)
  some ⟨field, operator, value, relation⟩

def datum (f : FilterCondition) : Datum :=
  .table <| [("field", .text f.field), ("operator", .text f.operator.name),
    ("value", f.value.datum)] ++ f.relation.toList.map fun p ↦ ("relation", .text p)

end FilterCondition

namespace SortOrder

def ofDatum? (f : DocumentFormat) (d : Datum) : Option SortOrder :=
  (f.choice? d).bind fun s ↦
    if s = "ASC" ∨ s = "asc" then some asc
    else if s = "DESC" ∨ s = "desc" then some desc
    else none

def datum (o : SortOrder) : Datum := .text o.sql

end SortOrder

namespace ForeignKeyExclusion

def name : ForeignKeyExclusion → String
  | nextHop => "nextHop"
  | allForeignKeys => "allForeignKeys"

def ofName? (s : String) : Option ForeignKeyExclusion :=
  if s = "nextHop" then some nextHop
  else if s = "allForeignKeys" then some allForeignKeys
  else none

def ofDatum? (f : DocumentFormat) (d : Datum) : Option ForeignKeyExclusion :=
  (f.choice? d).bind ofName?

end ForeignKeyExclusion

def optionalText (p : Parts) (name : String) : Option (Option String) :=
  p.orElse name none (Datum.option? Datum.text?)

namespace QueryOptions

def parts : List PartName :=
  [⟨"page", []⟩, ⟨"limit", []⟩, ⟨"search", []⟩, ⟨"searchFields", []⟩, ⟨"sortBy", []⟩,
    ⟨"sortOrder", []⟩, ⟨"filters", []⟩, ⟨"relations", []⟩, ⟨"select", []⟩, ⟨"dateField", []⟩,
    ⟨"withDeleted", []⟩, ⟨"foreignKeyExclusion", []⟩]

def ofDatum? (f : DocumentFormat) (d : Datum) : Option QueryOptions := do
  let p ← Parts.of? parts d
  let page ← p.required "page" Datum.word?
  let limit ← p.required "limit" Datum.word?
  let search ← p.optional "search" Datum.text?
  let searchFields ← p.required "searchFields" texts?
  let sortBy ← p.optional "sortBy" Datum.text?
  let sortOrder ← p.required "sortOrder" (SortOrder.ofDatum? f)
  let filters ← p.required "filters" (Datum.listOf? (FilterCondition.ofDatum? f))
  let relations ← p.required "relations" texts?
  let select ← p.optional "select" texts?
  let dateField ← p.optional "dateField" Datum.text?
  let withDeleted ← p.required "withDeleted" Datum.bool?
  let foreignKeyExclusion ← p.required "foreignKeyExclusion" (ForeignKeyExclusion.ofDatum? f)
  some { page, limit, search, searchFields, sortBy, sortOrder, filters, relations, select,
         dateField, withDeleted, foreignKeyExclusion }

def datum (o : QueryOptions) : Datum :=
  .table [("page", .int o.page), ("limit", .int o.limit), ("search", optionDatum .text o.search),
    ("searchFields", textsDatum o.searchFields), ("sortBy", optionDatum .text o.sortBy),
    ("sortOrder", o.sortOrder.datum), ("filters", .list (o.filters.map FilterCondition.datum)),
    ("relations", textsDatum o.relations), ("select", optionDatum textsDatum o.select),
    ("dateField", optionDatum .text o.dateField), ("withDeleted", .bool o.withDeleted),
    ("foreignKeyExclusion", .text o.foreignKeyExclusion.name)]

end QueryOptions

namespace ListingRequest

def parts : List PartName :=
  [⟨"page", []⟩, ⟨"limit", []⟩, ⟨"search", []⟩, ⟨"sortBy", []⟩, ⟨"sortOrder", []⟩,
    ⟨"startDate", []⟩, ⟨"endDate", []⟩, ⟨"withDeleted", []⟩]

def isPart (key : String) : Bool := parts.any (·.matches key)

/-- Only a table is a request. Names that it does not know are filter values. -/
def ofDatum? (f : DocumentFormat) (d : Datum) : Option ListingRequest := do
  let entries ← d.entries?
  let p ← Parts.of? parts d
  let page ← p.orElse "page" none (Datum.option? Datum.word?)
  let limit ← p.orElse "limit" none (Datum.option? Datum.word?)
  let search ← optionalText p "search"
  let sortBy ← optionalText p "sortBy"
  let sortOrder ← p.orElse "sortOrder" none (Datum.option? (SortOrder.ofDatum? f))
  let startDate ← optionalText p "startDate"
  let endDate ← optionalText p "endDate"
  let withDeleted ← p.orElse "withDeleted" none (Datum.option? Datum.bool?)
  let filters ← Datum.keyedOf? FilterValue.ofDatum? (.table (entries.filter (!isPart ·.1)))
  some { page, limit, search, sortBy, sortOrder, startDate, endDate, withDeleted, filters }

def datum (r : ListingRequest) : Datum :=
  .table <| [("page", optionDatum (fun n ↦ .int (n : Nat)) r.page),
    ("limit", optionDatum (fun n ↦ .int (n : Nat)) r.limit),
    ("search", optionDatum .text r.search), ("sortBy", optionDatum .text r.sortBy),
    ("sortOrder", optionDatum SortOrder.datum r.sortOrder),
    ("startDate", optionDatum .text r.startDate), ("endDate", optionDatum .text r.endDate),
    ("withDeleted", optionDatum .bool r.withDeleted)] ++
    r.filters.map fun (key, v) ↦ (key, v.datum)

end ListingRequest

namespace FilterField

def parts : List PartName :=
  [⟨"field", []⟩, ⟨"operator", []⟩, ⟨"relation", []⟩, ⟨"ignore", []⟩, ⟨"mapField", []⟩]

def ofDatum? (f : DocumentFormat) (d : Datum) : Option FilterField := do
  let p ← Parts.of? parts d
  let field ← p.required "field" Datum.text?
  let operator ← p.orElse "operator" .equals (Operator.ofDatum? f)
  let relation ← optionalText p "relation"
  let ignore ← p.orElse "ignore" false Datum.bool?
  let mapField ← optionalText p "mapField"
  some { field, operator, relation, ignore, mapField }

def datum (f : FilterField) : Datum :=
  .table [("field", .text f.field), ("operator", .text f.operator.name),
    ("relation", optionDatum .text f.relation), ("ignore", .bool f.ignore),
    ("mapField", optionDatum .text f.mapField)]

end FilterField

namespace ListingConfig

def parts : List PartName :=
  [⟨"relations", []⟩, ⟨"defaultSortBy", []⟩, ⟨"searchFields", []⟩, ⟨"dateField", []⟩,
    ⟨"filters", []⟩, ⟨"select", []⟩, ⟨"withDeleted", []⟩, ⟨"foreignKeyExclusion", []⟩]

def ofDatum? (f : DocumentFormat) (d : Datum) : Option ListingConfig := do
  let p ← Parts.of? parts d
  let relations ← p.orElse "relations" [] texts?
  let defaultSortBy ← optionalText p "defaultSortBy"
  let searchFields ← p.orElse "searchFields" [] texts?
  let dateField ← optionalText p "dateField"
  let filters ← p.orElse "filters" [] (Datum.listOf? (FilterField.ofDatum? f))
  let select ← p.orElse "select" none (Datum.option? texts?)
  let withDeleted ← p.orElse "withDeleted" false Datum.bool?
  let foreignKeyExclusion ←
    p.orElse "foreignKeyExclusion" .nextHop (ForeignKeyExclusion.ofDatum? f)
  some { relations, defaultSortBy, searchFields, dateField, filters, select, withDeleted,
         foreignKeyExclusion }

def datum (c : ListingConfig) : Datum :=
  .table [("relations", textsDatum c.relations),
    ("defaultSortBy", optionDatum .text c.defaultSortBy),
    ("searchFields", textsDatum c.searchFields), ("dateField", optionDatum .text c.dateField),
    ("filters", .list (c.filters.map FilterField.datum)),
    ("select", optionDatum textsDatum c.select), ("withDeleted", .bool c.withDeleted),
    ("foreignKeyExclusion", .text c.foreignKeyExclusion.name)]

def ofToml (content : String) : Except QueryError ListingConfig :=
  readDocument .toml "listing TOML" (ofDatum? .toml) content

end ListingConfig

namespace ListingCatalog

def parts : List PartName := [⟨"listings", []⟩]

def ofDatum? (f : DocumentFormat) (d : Datum) : Option ListingCatalog := do
  let p ← Parts.of? parts d
  let listings ← p.orElse "listings" [] (Datum.keyedOf? (ListingConfig.ofDatum? f))
  some ⟨listings⟩

def ofToml (content : String) : Except QueryError ListingCatalog :=
  readDocument .toml "listing catalog TOML" (ofDatum? .toml) content

def ofFile (fileName : String) (content : FileContent) : Except QueryError ListingCatalog := do
  let content ← content.get "listing catalog" fileName
  ofToml content

end ListingCatalog

end Listing
