import Listing.Error
import Listing.Filter
import Listing.Page

namespace Listing

inductive SortOrder
  | asc
  | desc
  deriving DecidableEq, Repr

namespace SortOrder

def sql : SortOrder → String
  | asc => "ASC"
  | desc => "DESC"

def upperAscii (s : String) : String :=
  String.ofList <| s.toList.map fun c ↦
    if 'a' ≤ c ∧ c ≤ 'z' then Char.ofNat (c.toNat - 32) else c

def ofText (s : String) : Except QueryError SortOrder :=
  let word := upperAscii s
  if word = "ASC" then .ok asc
  else if word = "DESC" then .ok desc
  else .error (.of (.invalidInput "sortOrder" s!"expected ASC or DESC, got '{word}'"))

def ofText? : Option String → Except QueryError SortOrder
  | some s => ofText s
  | none => .ok desc

end SortOrder

/-- Which foreign keys a join on the way to a selected one leaves out. -/
inductive ForeignKeyExclusion
  /-- Those that lead to the next joins. -/
  | nextHop
  | allForeignKeys
  deriving DecidableEq, Repr

def defaultPage : Nat := 1

def defaultLimit : Nat := 10

def maxLimit : Nat := 100

structure QueryOptions where
  page : Nat := defaultPage
  limit : Nat := defaultLimit
  search : Option String := none
  searchFields : List String := []
  sortBy : Option String := none
  sortOrder : SortOrder := .desc
  filters : List FilterCondition := []
  relations : List Path := []
  /-- The selected fields; every physical column without a selection. -/
  select : Option (List String) := none
  dateField : Option String := none
  withDeleted : Bool := false
  foreignKeyExclusion : ForeignKeyExclusion := .nextHop
  deriving Repr

def QueryOptions.window (o : QueryOptions) : Window := .ofPage o.page o.limit

structure ListingRequest where
  page : Option Nat := none
  limit : Option Nat := none
  search : Option String := none
  sortBy : Option String := none
  sortOrder : Option SortOrder := none
  startDate : Option String := none
  endDate : Option String := none
  withDeleted : Option Bool := none
  /-- All other keys. -/
  filters : Keyed FilterValue := []
  deriving Repr

structure FilterField where
  field : String
  operator : Operator := .equals
  relation : Option Path := none
  /-- The key is accepted and has no effect. -/
  ignore : Bool := false
  /-- The column, when it is not named like the key. -/
  mapField : Option String := none
  deriving DecidableEq, Repr

def FilterField.column (f : FilterField) : String := f.mapField.getD f.field

structure ListingConfig where
  relations : List Path := []
  defaultSortBy : Option String := none
  searchFields : List String := []
  dateField : Option String := none
  filters : List FilterField := []
  select : Option (List String) := none
  withDeleted : Bool := false
  foreignKeyExclusion : ForeignKeyExclusion := .nextHop
  deriving DecidableEq, Repr

structure ListingCatalog where
  listings : Keyed ListingConfig
  deriving DecidableEq, Repr

namespace ListingCatalog

def insert (c : ListingCatalog) (name : String) (config : ListingConfig) : ListingCatalog :=
  ⟨c.listings.put name config⟩

def get (c : ListingCatalog) (name : String) : Except QueryError ListingConfig :=
  match c.listings.get? name with
  | some config => .ok config
  | none => .error (.configuration (.unknownListing name c.listings.keys))

end ListingCatalog

end Listing
