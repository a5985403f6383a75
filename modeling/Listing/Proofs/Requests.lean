import Listing.Options.Build
import Listing.Proofs.Keyed
import Listing.Proofs.Outcome

namespace Listing

namespace ListingRequest

variable {config : ListingConfig} {r r' : ListingRequest} {f : FilterCondition}

/-- What a request says under a free key. A null says nothing. -/
def given? (r : ListingRequest) (key : String) : Option FilterValue :=
  (r.filters.get? key).filter (!·.isNull)

theorem filterFor_eq (r : ListingRequest) (entry : FilterField) :
    r.filterFor entry = if entry.ignore then none
      else (r.given? entry.field).map fun v ↦
        ⟨entry.column, entry.operator, v, entry.relation⟩ := by
  rw [filterFor, given?]
  cases r.filters.get? entry.field with
  | none => rfl
  | some v => cases v <;> rfl

/-- Requests with the same known keys, and with the same free keys as far as the configuration looks
at them. -/
structure Agree (config : ListingConfig) (r r' : ListingRequest) : Prop where
  page : r.page = r'.page
  limit : r.limit = r'.limit
  search : r.search = r'.search
  sortBy : r.sortBy = r'.sortBy
  sortOrder : r.sortOrder = r'.sortOrder
  startDate : r.startDate = r'.startDate
  endDate : r.endDate = r'.endDate
  withDeleted : r.withDeleted = r'.withDeleted
  given : ∀ entry ∈ config.filters, entry.ignore = false →
    r.given? entry.field = r'.given? entry.field

theorem Agree.filters_eq (h : Agree config r r') :
    config.filters.filterMap r.filterFor = config.filters.filterMap r'.filterFor := by
  refine List.filterMap_congr fun entry hentry ↦ ?_
  rw [filterFor_eq, filterFor_eq]
  cases hignore : entry.ignore with
  | true => rfl
  | false => rw [h.given entry hentry hignore]

theorem Agree.dateFilter_eq (h : Agree config r r') :
    r.dateFilter config = r'.dateFilter config := by
  rw [dateFilter, dateFilter, dateBounds, dateBounds, h.startDate, h.endDate]

theorem Agree.options_eq (h : Agree config r r') (dates : Option FilterCondition) :
    r.options config dates = r'.options config dates := by
  rw [options, options, h.filters_eq, h.page, h.limit, h.search, h.sortBy, h.sortOrder,
    h.withDeleted]

/-- The filters that a request has under a configuration: one for each field of it that the request
gives a value, and one for the dates. -/
inductive Yields (r : ListingRequest) (config : ListingConfig) : FilterCondition → Prop
  | field {entry : FilterField} {v : FilterValue} :
      entry ∈ config.filters → entry.ignore = false → r.given? entry.field = some v →
      Yields r config ⟨entry.column, entry.operator, v, entry.relation⟩
  | between {date low high : String} :
      config.dateField = some date → r.dateBounds = (some low, some high) →
      Yields r config ⟨(Field.ofText date).column, .between, .list [.text low, .text high],
        (Field.ofText date).relation⟩
  | since {date low : String} :
      config.dateField = some date → r.dateBounds = (some low, none) →
      Yields r config ⟨(Field.ofText date).column, .gte, .text low, (Field.ofText date).relation⟩
  | upTo {date high : String} :
      config.dateField = some date → r.dateBounds = (none, some high) →
      Yields r config ⟨(Field.ofText date).column, .lte, .text high, (Field.ofText date).relation⟩

theorem filterFor_eq_some {entry : FilterField} :
    r.filterFor entry = some f ↔ entry.ignore = false ∧ ∃ v, r.given? entry.field = some v ∧
      ⟨entry.column, entry.operator, v, entry.relation⟩ = f := by
  rw [filterFor_eq]
  cases entry.ignore <;> simp

/-- The dates make one filter at most, of the configured column. -/
theorem dateFilter_eq_ok {dates : Option FilterCondition} (h : r.dateFilter config = .ok dates) :
    dates = config.dateField.bind fun date ↦ rangeFilter (Field.ofText date) r.dateBounds := by
  rw [dateFilter] at h
  cases hdate : config.dateField with
  | none =>
    rw [hdate] at h
    exact (Except.ok.inj h).symm
  | some date =>
    rw [hdate] at h
    obtain ⟨-, h⟩ := check_eq_ok.1 h
    obtain ⟨-, h⟩ := check_eq_ok.1 h
    exact (pure_eq_ok.1 h).symm

theorem yields_iff : Yields r config f ↔
    (∃ entry ∈ config.filters, r.filterFor entry = some f) ∨
      (config.dateField.bind fun date ↦ rangeFilter (Field.ofText date) r.dateBounds) =
        some f := by
  rw [Option.bind_eq_some_iff]
  constructor
  · rintro (⟨hentry, hignore, hv⟩ | ⟨hdate, hbounds⟩ | ⟨hdate, hbounds⟩ | ⟨hdate, hbounds⟩)
    · exact .inl ⟨_, hentry, filterFor_eq_some.2 ⟨hignore, _, hv, rfl⟩⟩
    all_goals exact .inr ⟨_, hdate, by rw [hbounds]; rfl⟩
  · rintro (⟨entry, hentry, hf⟩ | ⟨date, hdate, hf⟩)
    · obtain ⟨hignore, v, hv, rfl⟩ := filterFor_eq_some.1 hf
      exact .field hentry hignore hv
    · rcases hbounds : r.dateBounds with ⟨_ | low, _ | high⟩
      all_goals rw [hbounds] at hf
      · simp [rangeFilter] at hf
      · obtain rfl := Option.some.inj hf
        exact .upTo hdate hbounds
      · obtain rfl := Option.some.inj hf
        exact .since hdate hbounds
      · obtain rfl := Option.some.inj hf
        exact .between hdate hbounds

end ListingRequest

namespace QueryOptions

open ListingRequest

/-- Free keys that the configuration does not list cannot be seen in the outcome, be it options or
an error; and options filter by what the configuration lists and the request gives, and by nothing
else. -/
theorem build_eq_of_agree (s : Schema) (root : String) (config : ListingConfig) :
    (∀ r r', Agree config r r' → build s root r config = build s root r' config) ∧
      ∀ r o, build s root r config = .ok o → ∀ f, f ∈ o.filters ↔ Yields r config f := by
  constructor
  · intro r r' h
    rw [build, build, h.dateFilter_eq]
    simp only [h.options_eq]
  · intro r o h f
    obtain ⟨entity, -, h⟩ := bind_eq_ok.1 h
    obtain ⟨dates, hdates, h⟩ := bind_eq_ok.1 h
    obtain ⟨-, h⟩ := check_eq_ok.1 h
    obtain rfl := pure_eq_ok.1 h
    rw [yields_iff, ← dateFilter_eq_ok hdates]
    simp only [ListingRequest.options, List.mem_append, List.mem_filterMap, Option.mem_toList]

def orders : Schema :=
  .ofEntities [
    { name := "Order", table := "orders", primaryKey := ["id"]
      columns := [⟨"id", false⟩, ⟨"status", false⟩, ⟨"placedAt", false⟩, ⟨"customerId", false⟩]
      relations := [⟨"customer", "Customer", .manyToOne, [⟨"customerId", "id"⟩], none, none⟩]
      softDelete := none },
    { name := "Customer", table := "customers", primaryKey := ["id"]
      columns := [⟨"id", false⟩, ⟨"name", false⟩], relations := [], softDelete := none }]

def orderListing : ListingConfig :=
  { relations := ["customer"], dateField := some "placedAt"
    filters := [⟨"id", .gte, none, false, none⟩, ⟨"id", .lt, none, false, none⟩,
      ⟨"customer", .like, some "customer", false, some "name"⟩,
      ⟨"status", .equals, none, true, none⟩, ⟨"customerId", .equals, none, false, none⟩] }

def plainRequest : ListingRequest :=
  { startDate := some "2024-01-31", filters := [("id", .int 7), ("customer", .text "ana")] }

def forgedRequest : ListingRequest :=
  { plainRequest with
    filters := [("customer", .text "ana"), ("status", .text "PAID"), ("customerId", .null),
      ("placedAt", .null), ("customer.id", .int 1), ("id", .int 7), ("relation", .text "x")] }

theorem build_eq_of_agree_forged : ∃ o, build orders "Order" plainRequest orderListing = .ok o ∧
    build orders "Order" forgedRequest orderListing = .ok o ∧
    o.filters.map (fun f ↦ (f.relation, f.field, f.operator)) = [(none, "id", .gte),
      (none, "id", .lt), (some "customer", "name", .like), (none, "placedAt", .gte)] ∧
    ∀ f ∈ o.filters, Yields forgedRequest orderListing f := by
  have hfilters : (build orders "Order" plainRequest orderListing).toOption.map (fun o ↦
      o.filters.map fun f ↦ (f.relation, f.field, f.operator)) = some [(none, "id", .gte),
        (none, "id", .lt), (some "customer", "name", .like), (none, "placedAt", .gte)] := by
    decide +kernel
  have hagree : Agree orderListing plainRequest forgedRequest := {
    page := rfl, limit := rfl, search := rfl, sortBy := rfl, sortOrder := rfl, startDate := rfl
    endDate := rfl, withDeleted := rfl
    given := by
      simp only [orderListing, List.forall_mem_cons]
      exact ⟨fun _ ↦ rfl, fun _ ↦ rfl, fun _ ↦ rfl, by simp, fun _ ↦ rfl, by simp⟩ }
  obtain ⟨o, ho, hf⟩ := exists_ok_of_map hfilters
  obtain ⟨htwo, hyields⟩ := build_eq_of_agree orders "Order" orderListing
  have ho' := (htwo _ _ hagree).symm.trans ho
  exact ⟨o, ho, ho', hf, fun f ↦ (hyields _ _ ho' f).1⟩

end QueryOptions

end Listing
