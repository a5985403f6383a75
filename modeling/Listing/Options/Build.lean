import Listing.Calendar.Reader
import Listing.Options.Validation

namespace Listing

namespace ListingRequest

/-- The filter of one configured field; absent and null values have none. -/
def filterFor (r : ListingRequest) (f : FilterField) : Option FilterCondition :=
  if f.ignore then none
  else
    match r.filters.get? f.field with
    | none | some .null => none
    | some v => some ⟨f.column, f.operator, v, f.relation⟩

def dateBounds (r : ListingRequest) : Option String × Option String :=
  (r.startDate.bind Text.nonBlank?, r.endDate.bind Text.nonBlank?)

def checkDate (field bound : String) : Except QueryError Unit :=
  guardThat (Calendar.isDateLike bound) <|
    (QueryError.of (.invalidFilterValue field s!"'{bound}' is not a date or datetime")).suggest
      "Use YYYY-MM-DD or an RFC 3339 timestamp" none

/-- A range of two ends is closed, one of a single end is open on the other side. -/
def rangeFilter (f : Field) : Option String × Option String → Option FilterCondition
  | (some low, some high) =>
    some ⟨f.column, .between, .list [.text low, .text high], f.relation⟩
  | (some low, none) => some ⟨f.column, .gte, .text low, f.relation⟩
  | (none, some high) => some ⟨f.column, .lte, .text high, f.relation⟩
  | (none, none) => none

def dateFilter (r : ListingRequest) (config : ListingConfig) :
    Except QueryError (Option FilterCondition) :=
  match config.dateField with
  | none => .ok none
  | some field => do
    let bounds := r.dateBounds
    bounds.1.toList.forM (checkDate field)
    bounds.2.toList.forM (checkDate field)
    return rangeFilter (Field.ofText field) bounds

def options (r : ListingRequest) (config : ListingConfig) (dates : Option FilterCondition) :
    QueryOptions :=
  { page := r.page.getD defaultPage
    limit := r.limit.getD defaultLimit
    search := r.search
    searchFields := config.searchFields
    sortBy := r.sortBy <|> config.defaultSortBy
    sortOrder := r.sortOrder.getD .desc
    filters := config.filters.filterMap r.filterFor ++ dates.toList
    relations := config.relations
    select := config.select
    dateField := config.dateField
    withDeleted := r.withDeleted.getD config.withDeleted
    foreignKeyExclusion := config.foreignKeyExclusion }

end ListingRequest

def QueryOptions.build (s : Schema) (root : String) (r : ListingRequest) (config : ListingConfig) :
    Except QueryError QueryOptions := do
  let entity ← s.requireEntity root
  let dates ← r.dateFilter config
  let options := r.options config dates
  options.validate s entity
  return options

end Listing
