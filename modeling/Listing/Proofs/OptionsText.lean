import Listing.Options.Document
import Listing.Proofs.Documents
import Listing.Proofs.JsonReading

namespace Listing

open Number

theorem Operator.ofDatum?_name (f : DocumentFormat) (o : Operator) :
    ofDatum? f (.text o.name) = some o := by
  rw [ofDatum?, choice?_text, Option.bind_some]
  cases o <;> decide

theorem SortOrder.ofDatum?_datum (f : DocumentFormat) (o : SortOrder) :
    ofDatum? f o.datum = some o := by
  rw [ofDatum?, datum, choice?_text, Option.bind_some]
  cases o <;> rfl

theorem ForeignKeyExclusion.ofDatum?_name (f : DocumentFormat) (e : ForeignKeyExclusion) :
    ofDatum? f (.text e.name) = some e := by
  rw [ofDatum?, choice?_text, Option.bind_some]
  cases e <;> rfl

namespace FilterValue

mutual

/-- No floats, and integers of 64 bits. -/
def isPlain : FilterValue → Bool
  | int i => minLong ≤ i && i ≤ maxLong
  | float _ => false
  | list items => allPlain items
  | _ => true

def allPlain : List FilterValue → Bool
  | [] => true
  | v :: vs => v.isPlain && allPlain vs

end

mutual

theorem ofDatum?_datum : ∀ {v : FilterValue}, v.isPlain → ofDatum? v.datum = some v
  | null, _ | bool _, _ | float _, _ | text _, _ => rfl
  | int i, h => by
    simp only [isPlain, Bool.and_eq_true, decide_eq_true_eq] at h
    rw [datum, ofDatum?, if_pos h.2]
  | list items, h => by
    rw [datum, ofDatum?, filterValuesOf?_data h, Option.map_some]

theorem filterValuesOf?_data :
    ∀ {vs : List FilterValue}, allPlain vs → filterValuesOf? (filterValueData vs) = some vs
  | [], _ => rfl
  | v :: vs, h => by
    simp only [allPlain, Bool.and_eq_true] at h
    rw [filterValueData, filterValuesOf?, ofDatum?_datum h.1, filterValuesOf?_data h.2]

end

mutual

theorem isPlain_datum : ∀ {v : FilterValue}, v.isPlain → v.datum.isPlain
  | null, _ | bool _, _ | text _, _ => rfl
  | int i, h => by
    have hle : maxLong ≤ maxWord := by decide
    simp only [isPlain, Bool.and_eq_true, decide_eq_true_eq] at h
    simp only [datum, Datum.isPlain, Json.isWide, decide_eq_true_eq]
    omega
  | float _, h => by simp [isPlain] at h
  | list items, h => by
    rw [datum, Datum.isPlain]
    exact allPlain_data h

theorem allPlain_data : ∀ {vs : List FilterValue}, allPlain vs → Datum.allPlain (filterValueData vs)
  | [], _ => rfl
  | v :: vs, h => by
    simp only [allPlain, Bool.and_eq_true] at h
    simp only [filterValueData, Datum.allPlain, Bool.and_eq_true]
    exact ⟨isPlain_datum h.1, allPlain_data h.2⟩

end

end FilterValue

namespace FilterCondition

variable {f : FilterCondition}

theorem ofDatum?_datum (format : DocumentFormat) (h : f.value.isPlain) :
    ofDatum? format f.datum = some f := by
  have hkeys : f.datum.named.keys.Nodup := by
    rw [datum, Datum.named]
    cases f.relation <;> simp [Datum.entries?]
  have hnamed : Parts.AreNamed parts f.datum.named := .of_nodup hkeys (by simp [parts])
  obtain ⟨given, hof, hget⟩ := Parts.of?_table hnamed
  simp only [parts, List.forall_mem_cons] at hget
  have hrelation : Parts.orElse ⟨true, given⟩ "relation" none (Datum.option? Datum.text?) =
      some f.relation := by
    rw [Parts.orElse, hget.2.2.2.1, datum]
    cases f.relation <;> rfl
  have hdatum : Parts.of? parts f.datum = some ⟨true, given⟩ := hof
  rw [ofDatum?]
  simp only [↓bind_of_eq_some hdatum,
    ↓bind_of_eq_some (Parts.required_eq hget.1 (Datum.text?_text f.field)),
    ↓bind_of_eq_some (Parts.orElse_eq hget.2.1 (Operator.ofDatum?_name format f.operator)),
    ↓bind_of_eq_some (Parts.orElse_eq hget.2.2.1 (FilterValue.ofDatum?_datum h)),
    ↓bind_of_eq_some hrelation]

theorem isPlain_datum (h : f.value.isPlain) : f.datum.isPlain := by
  rw [datum, Datum.isPlain, Datum.entriesPlain_iff, List.forall_mem_append]
  simp only [List.forall_mem_cons, List.forall_mem_map]
  exact ⟨⟨rfl, rfl, FilterValue.isPlain_datum h, by simp⟩, fun _ _ ↦ rfl⟩

end FilterCondition

theorem isPlain_optionDatum {α : Type} {write : α → Datum} {o : Option α}
    (h : ∀ a ∈ o, (write a).isPlain) : (optionDatum write o).isPlain := by
  cases o with
  | none => rfl
  | some a => exact h a rfl

theorem isPlain_textsDatum (ss : List String) : (textsDatum ss).isPlain := by
  rw [textsDatum, Datum.isPlain, Datum.allPlain_iff]
  exact List.forall_mem_map.2 fun _ _ ↦ rfl

namespace ListingRequest

variable {r : ListingRequest}

/-- What can be written and read back: numbers of 64 bits, values without floats, each key once and
not named like a part, and lists within the depth that can be read. -/
structure IsWritable (r : ListingRequest) : Prop where
  page : ∀ n ∈ r.page, n ≤ maxWord
  limit : ∀ n ∈ r.limit, n ≤ maxWord
  nodup : r.filters.keys.Nodup
  free : ∀ key ∈ r.filters.keys, !isPart key
  plain : ∀ e ∈ r.filters, e.2.isPlain
  depth : r.datum.depth ≤ Json.maxDepth

def declared (r : ListingRequest) : Keyed Datum :=
  [("page", optionDatum (fun n ↦ .int (n : Nat)) r.page),
    ("limit", optionDatum (fun n ↦ .int (n : Nat)) r.limit),
    ("search", optionDatum .text r.search), ("sortBy", optionDatum .text r.sortBy),
    ("sortOrder", optionDatum SortOrder.datum r.sortOrder),
    ("startDate", optionDatum .text r.startDate), ("endDate", optionDatum .text r.endDate),
    ("withDeleted", optionDatum .bool r.withDeleted)]

theorem isPart_of_mem_declared (r : ListingRequest) : ∀ key ∈ r.declared.keys, isPart key := by
  simp [declared, isPart, parts, PartName.matches]

def free (r : ListingRequest) : Keyed Datum := r.filters.map fun e ↦ (e.1, e.2.datum)

theorem datum_eq (r : ListingRequest) : r.datum = .table (r.declared ++ r.free) := rfl

theorem keys_free (r : ListingRequest) : r.free.keys = r.filters.keys := by
  simp [Keyed.keys, free]

theorem IsWritable.nodup_keys (h : r.IsWritable) : (Keyed.keys (r.declared ++ r.free)).Nodup := by
  rw [Keyed.keys_append, keys_free, List.nodup_append]
  refine ⟨by simp [declared], h.nodup, fun key hkey other hother hsame ↦ ?_⟩
  have hfree := h.free other hother
  rw [← hsame, isPart_of_mem_declared r key hkey] at hfree
  exact Bool.noConfusion hfree

theorem IsWritable.filter_free (h : r.IsWritable) :
    (r.declared ++ r.free).filter (!isPart ·.1) = r.free := by
  have hdeclared : r.declared.filter (!isPart ·.1) = [] := by
    refine List.filter_eq_nil_iff.2 fun e he ↦ ?_
    simp [isPart_of_mem_declared r e.1 (List.mem_map_of_mem he)]
  have hfree : r.free.filter (!isPart ·.1) = r.free := by
    refine List.filter_eq_self.2 fun e he ↦ h.free e.1 ?_
    rw [← keys_free]
    exact List.mem_map_of_mem he
  rw [List.filter_append, hdeclared, hfree, List.nil_append]

theorem ofDatum?_datum (format : DocumentFormat) (h : r.IsWritable) :
    ofDatum? format r.datum = some r := by
  have hnamed : Parts.AreNamed parts (r.declared ++ r.free) :=
    .of_nodup h.nodup_keys (by simp [parts])
  obtain ⟨given, hof, hget⟩ := Parts.of?_table hnamed
  simp only [parts, List.forall_mem_cons] at hget
  obtain ⟨hpage, hlimit, hsearch, hsortBy, hsortOrder, hstart, hend, hdeleted, -⟩ := hget
  have hentries : Datum.entries? (.table (r.declared ++ r.free)) = some (r.declared ++ r.free) :=
    rfl
  have hfilters : Datum.keyedOf? FilterValue.ofDatum? (.table r.free) = some r.filters :=
    Datum.keyedOf?_map h.nodup fun e he ↦ FilterValue.ofDatum?_datum (h.plain e he)
  rw [ofDatum?, datum_eq]
  simp only [↓bind_of_eq_some hentries, ↓bind_of_eq_some hof, optionalText,
    ↓bind_of_eq_some (Parts.orElse_optionDatum hpage rfl fun n hn ↦ Datum.word?_int (h.page n hn)),
    ↓bind_of_eq_some (Parts.orElse_optionDatum hlimit rfl
      fun n hn ↦ Datum.word?_int (h.limit n hn)),
    ↓bind_of_eq_some (Parts.orElse_optionDatum hsearch rfl fun s _ ↦ Datum.text?_text s),
    ↓bind_of_eq_some (Parts.orElse_optionDatum hsortBy rfl fun s _ ↦ Datum.text?_text s),
    ↓bind_of_eq_some (Parts.orElse_optionDatum hsortOrder rfl
      fun o _ ↦ SortOrder.ofDatum?_datum format o),
    ↓bind_of_eq_some (Parts.orElse_optionDatum hstart rfl fun s _ ↦ Datum.text?_text s),
    ↓bind_of_eq_some (Parts.orElse_optionDatum hend rfl fun s _ ↦ Datum.text?_text s),
    ↓bind_of_eq_some (Parts.orElse_optionDatum hdeleted rfl fun b _ ↦ Datum.bool?_bool b),
    h.filter_free, ↓bind_of_eq_some hfilters]

theorem IsWritable.isPlain_datum (h : r.IsWritable) : r.datum.isPlain := by
  have hpage := isPlain_optionDatum fun n hn ↦ Datum.isPlain_word (h.page n hn)
  have hlimit := isPlain_optionDatum fun n hn ↦ Datum.isPlain_word (h.limit n hn)
  have hfree : ∀ e ∈ r.free, e.2.isPlain := by
    intro e he
    obtain ⟨f, hf, rfl⟩ := List.mem_map.1 he
    exact FilterValue.isPlain_datum (h.plain f hf)
  rw [datum_eq, Datum.isPlain, Datum.entriesPlain_iff, List.forall_mem_append]
  refine ⟨?_, hfree⟩
  simp only [declared, List.forall_mem_cons]
  exact ⟨hpage, hlimit, isPlain_optionDatum fun _ _ ↦ rfl, isPlain_optionDatum fun _ _ ↦ rfl,
    isPlain_optionDatum fun _ _ ↦ rfl, isPlain_optionDatum fun _ _ ↦ rfl,
    isPlain_optionDatum fun _ _ ↦ rfl, isPlain_optionDatum fun _ _ ↦ rfl, by simp⟩

end ListingRequest

namespace QueryOptions

variable {o : QueryOptions}

structure IsWritable (o : QueryOptions) : Prop where
  page : o.page ≤ maxWord
  limit : o.limit ≤ maxWord
  plain : ∀ f ∈ o.filters, f.value.isPlain
  depth : o.datum.depth ≤ Json.maxDepth

theorem ofDatum?_datum (format : DocumentFormat) (h : o.IsWritable) :
    ofDatum? format o.datum = some o := by
  have hkeys : o.datum.named.keys.Nodup := by simp [datum, Datum.named, Datum.entries?]
  have hnamed : Parts.AreNamed parts o.datum.named := .of_nodup hkeys (by simp [parts])
  obtain ⟨given, hof, hget⟩ := Parts.of?_table hnamed
  simp only [parts, List.forall_mem_cons] at hget
  obtain ⟨hpage, hlimit, hsearch, hfields, hsortBy, hsortOrder, hfilters, hrelations, hselect,
    hdate, hdeleted, hexclusion, -⟩ := hget
  have hdatum : Parts.of? parts o.datum = some ⟨true, given⟩ := hof
  have hread : Datum.listOf? (FilterCondition.ofDatum? format)
      (.list (o.filters.map FilterCondition.datum)) = some o.filters :=
    Datum.listOf?_map fun f hf ↦ FilterCondition.ofDatum?_datum format (h.plain f hf)
  rw [ofDatum?]
  simp only [↓bind_of_eq_some hdatum,
    ↓bind_of_eq_some (Parts.required_eq hpage (Datum.word?_int h.page)),
    ↓bind_of_eq_some (Parts.required_eq hlimit (Datum.word?_int h.limit)),
    ↓bind_of_eq_some (Parts.optional_optionDatum hsearch rfl fun s _ ↦ Datum.text?_text s),
    ↓bind_of_eq_some (Parts.required_eq hfields (texts?_textsDatum _)),
    ↓bind_of_eq_some (Parts.optional_optionDatum hsortBy rfl fun s _ ↦ Datum.text?_text s),
    ↓bind_of_eq_some (Parts.required_eq hsortOrder (SortOrder.ofDatum?_datum format _)),
    ↓bind_of_eq_some (Parts.required_eq hfilters hread),
    ↓bind_of_eq_some (Parts.required_eq hrelations (texts?_textsDatum _)),
    ↓bind_of_eq_some (Parts.optional_optionDatum hselect rfl fun ss _ ↦ texts?_textsDatum ss),
    ↓bind_of_eq_some (Parts.optional_optionDatum hdate rfl fun s _ ↦ Datum.text?_text s),
    ↓bind_of_eq_some (Parts.required_eq hdeleted (Datum.bool?_bool _)),
    ↓bind_of_eq_some (Parts.required_eq hexclusion (ForeignKeyExclusion.ofDatum?_name format _))]

theorem IsWritable.isPlain_datum (h : o.IsWritable) : o.datum.isPlain := by
  have hfilters : Datum.isPlain (.list (o.filters.map FilterCondition.datum)) := by
    rw [Datum.isPlain, Datum.allPlain_iff, List.forall_mem_map]
    exact fun f hf ↦ FilterCondition.isPlain_datum (h.plain f hf)
  rw [datum, Datum.isPlain, Datum.entriesPlain_iff]
  simp only [List.forall_mem_cons]
  exact ⟨Datum.isPlain_word h.page, Datum.isPlain_word h.limit, isPlain_optionDatum fun _ _ ↦ rfl,
    isPlain_textsDatum _, isPlain_optionDatum fun _ _ ↦ rfl, rfl, hfilters, isPlain_textsDatum _,
    isPlain_optionDatum fun _ _ ↦ isPlain_textsDatum _, isPlain_optionDatum fun _ _ ↦ rfl, rfl, rfl,
    by simp⟩

/-- Both texts are read back, whatever characters, keys and nested lists there are. -/
theorem read_render_datum :
    (∀ r : ListingRequest, r.IsWritable →
      (Json.read (Json.render r.datum)).bind (ListingRequest.ofDatum? .json) = some r) ∧
    ∀ o : QueryOptions, o.IsWritable →
      (Json.read (Json.render o.datum)).bind (QueryOptions.ofDatum? .json) = some o := by
  refine ⟨fun r h ↦ ?_, fun o h ↦ ?_⟩
  · rw [Json.read_render h.isPlain_datum h.depth, Option.bind_some]
    exact ListingRequest.ofDatum?_datum .json h
  · rw [Json.read_render h.isPlain_datum h.depth, Option.bind_some]
    exact ofDatum?_datum .json h

def awkwardRequest : ListingRequest :=
  { page := some maxWord, search := some "say \"hi\"\n\\", withDeleted := some false
    filters := [("Page", .list [.int (-5), .list [.null, .text "1"], .list []]), ("", .null),
      ("a\tb\"", .bool true), ("é", .int maxLong)] }

def awkwardOptions : QueryOptions :=
  { searchFields := ["customer.name", ""], sortOrder := .asc
    filters := [⟨"id", .isIn, .list [.int minLong, .text "7"], none⟩,
      ⟨"name", .isNull, .null, some "customer\\"⟩]
    select := some [], foreignKeyExclusion := .allForeignKeys }

theorem read_render_datum_awkward :
    (Json.read (Json.render awkwardRequest.datum)).bind (ListingRequest.ofDatum? .json) =
      some awkwardRequest ∧
    (Json.read (Json.render awkwardOptions.datum)).bind (QueryOptions.ofDatum? .json) =
      some awkwardOptions := by
  refine ⟨read_render_datum.1 awkwardRequest ⟨?_, ?_, ?_, ?_, ?_, ?_⟩,
    read_render_datum.2 awkwardOptions ⟨?_, ?_, ?_, ?_⟩⟩
  · simp [awkwardRequest]
  · simp [awkwardRequest]
  · decide
  · decide
  · simp only [awkwardRequest, List.forall_mem_cons]
    decide
  · decide
  · decide
  · decide
  · simp only [awkwardOptions, List.forall_mem_cons]
    decide
  · decide

end QueryOptions

end Listing
