import Listing.Proofs.Coverage
import Listing.Proofs.Failures

namespace Listing

/-- The field is a column behind a relation path and a dot. -/
def Field.IsDotted (field : String) (p : Path) : Prop :=
  ∃ column : String, '.' ∉ column.toList ∧ field = p ++ "." ++ column

namespace Path

/-- A field with this path is selected, and no declared path is it or goes on from it. -/
structure IsMissing (fields : List String) (declared : List Path) (p : Path) : Prop where
  selected : ∃ f ∈ fields, Field.IsDotted f p
  undeclared : ∀ d ∈ declared, d ≠ p ∧ ¬(p ++ ".").toList <+: d.toList

/-- Some field has the first path, and all that have the second one come later. -/
def ComesBefore (fields : List String) (p q : Path) : Prop :=
  ∃ (i : Nat) (f : String), fields[i]? = some f ∧ Field.IsDotted f p ∧
    ∀ (j : Nat) (g : String), fields[j]? = some g → Field.IsDotted g q → i < j

/-- The missing relations, each once, in the order in which the fields come to them. -/
structure ListsMissing (fields : List String) (declared : List Path) (paths : List Path) :
    Prop where
  mem_iff : ∀ p, p ∈ paths ↔ IsMissing fields declared p
  nodup : paths.Nodup
  ordered : paths.Pairwise (ComesBefore fields)

end Path

namespace Field

theorem isDotted_iff {field : String} {p : Path} :
    IsDotted field p ↔ (ofText field).relation = some p := by
  constructor
  · rintro ⟨column, hcolumn, rfl⟩
    have hfield : ofText (text ⟨some p, column⟩) = ⟨some p, column⟩ := ofText_text hcolumn
    exact congrArg relation hfield
  · intro h
    refine ⟨(ofText field).column, not_dot_mem_column field, ?_⟩
    have htext := text_ofText field
    rw [text, h] at htext
    exact htext.symm

end Field

namespace Path

variable {fields : List String} {declared : List Path} {p q : Path}

theorem not_isCovered_iff :
    p.isCovered declared = false ↔ ∀ d ∈ declared, d ≠ p ∧ ¬(p ++ ".").toList <+: d.toList := by
  rw [isCovered, List.any_eq_false]
  simp only [passes_iff_text, not_or]

end Path

namespace QueryOptions

open Listing.Path

variable {s : Schema} {root : Entity} {o : QueryOptions} {fields : List String}
  {declared : List Path}

def missingRelation? (declared : List Path) (field : String) : Option Path :=
  (Field.ofText field).relation.filter fun p ↦ !p.isCovered declared

theorem missingRelation?_eq_some {field : String} {p : Path} :
    missingRelation? declared field = some p ↔
      Field.IsDotted field p ∧ p.isCovered declared = false := by
  rw [missingRelation?, Option.filter_eq_some_iff, Field.isDotted_iff, Bool.not_eq_true']

/-- The missing relations with the indices of the fields that lack them. -/
def missingPlaces (fields : List String) (declared : List Path) : List (Path × Nat) :=
  fields.zipIdx.filterMap fun (f, i) ↦ (missingRelation? declared f).map (·, i)

theorem mem_missingPlaces {p : Path} {i : Nat} : (p, i) ∈ missingPlaces fields declared ↔
    ∃ f, fields[i]? = some f ∧ Field.IsDotted f p ∧ p.isCovered declared = false := by
  simp only [missingPlaces, List.mem_filterMap, Prod.exists, List.mem_zipIdx_iff_getElem?,
    Option.map_eq_some_iff, Prod.mk.injEq, missingRelation?_eq_some]
  constructor
  · rintro ⟨f, _, hf, _, hp, rfl, rfl⟩
    exact ⟨f, hf, hp⟩
  · rintro ⟨f, hf, hp⟩
    exact ⟨f, i, hf, p, hp, rfl, rfl⟩

theorem missingRelations_eq :
    missingRelations fields declared =
      ((missingPlaces fields declared).map Prod.fst).eraseDups := by
  have hfields : (fields.zipIdx.map Prod.fst).filterMap (missingRelation? declared) =
      (missingPlaces fields declared).map Prod.fst := by
    rw [missingPlaces, List.map_filterMap, List.filterMap_map]
    apply List.filterMap_congr
    rintro ⟨f, i⟩ -
    simp [Function.comp_def]
  rw [← hfields, List.zipIdx_map_fst]
  rfl

theorem pairwise_missingPlaces :
    (missingPlaces fields declared).Pairwise fun a b ↦ a.2 < b.2 := by
  rw [missingPlaces, List.pairwise_filterMap]
  have hindices : fields.zipIdx.Pairwise fun a b ↦ a.2 < b.2 := by
    rw [← List.pairwise_map, List.zipIdx_map_snd]
    exact List.pairwise_lt_range'
  refine hindices.imp ?_
  rintro ⟨f, i⟩ ⟨g, j⟩ hlt _ ha _ hb
  obtain ⟨_, -, rfl⟩ := Option.map_eq_some_iff.1 ha
  obtain ⟨_, -, rfl⟩ := Option.map_eq_some_iff.1 hb
  exact hlt

theorem listsMissing_missingRelations (fields : List String) (declared : List Path) :
    ListsMissing fields declared (missingRelations fields declared) := by
  have hmem (p : Path) : p ∈ missingRelations fields declared ↔ IsMissing fields declared p := by
    rw [missingRelations_eq, List.mem_eraseDups, List.mem_map]
    constructor
    · rintro ⟨⟨q, i⟩, hq, rfl⟩
      obtain ⟨f, hf, hdotted, hcovered⟩ := mem_missingPlaces.1 hq
      exact ⟨⟨f, List.mem_of_getElem? hf, hdotted⟩, not_isCovered_iff.1 hcovered⟩
    · rintro ⟨⟨f, hf, hdotted⟩, hundeclared⟩
      obtain ⟨i, hi⟩ := List.mem_iff_getElem?.1 hf
      exact ⟨(p, i), mem_missingPlaces.2 ⟨f, hi, hdotted, not_isCovered_iff.2 hundeclared⟩, rfl⟩
  refine ⟨hmem, nodup_eraseDups _, ?_⟩
  have hordered := pairwise_eraseDups_map Prod.fst
    (@pairwise_missingPlaces fields declared)
  rw [← missingRelations_eq] at hordered
  refine hordered.imp_of_mem ?_
  rintro _ q - hq ⟨⟨p, i⟩, hp, rfl, hlater⟩
  obtain ⟨f, hf, hdotted, -⟩ := mem_missingPlaces.1 hp
  refine ⟨i, f, hf, hdotted, ?_⟩
  intro j g hg hdotted'
  have hundeclared := not_isCovered_iff.2 ((hmem q).1 hq).undeclared
  exact hlater (q, j) (mem_missingPlaces.2 ⟨g, hg, hdotted', hundeclared⟩) rfl

def lostOnTheWay : List ErrorCode := [.invalidRelation, .invalidConfiguration]

theorem failsWith_walk (s : Schema) (root current : Entity) (paths : List Path) :
    FailsWith lostOnTheWay (s.walk root current paths) := by
  intro e he
  obtain ⟨_, _, _, _, -, -, hstops⟩ := Schema.walk_eq_error he
  cases hstops with
  | unknownRelation => exact List.mem_cons_self
  | unknownTarget => exact List.mem_cons_of_mem _ List.mem_cons_self

theorem failsWith_ownerOf (s : Schema) (root : Entity) (f : Field) :
    FailsWith lostOnTheWay (s.ownerOf root f) := by
  rw [Schema.ownerOf]
  cases f.relation with
  | none => exact .of_ok rfl
  | some p =>
    have hpath : FailsWith lostOnTheWay (s.resolvePath root p) := by
      rw [Schema.resolvePath]
      split
      · exact failsWith_walk s root root _
      · exact .of_error List.mem_cons_self
    exact hpath.bind fun _ _ ↦ .of_ok rfl

def missingError (root : Entity) (missing : List Path) : QueryError :=
  ((QueryError.of (.missingRelations missing)).onModel root.name).during "Validating select"

/-- Behind the first checks missing relations come before everything else. -/
theorem validate_eq (hbounds : o.checkBounds = .ok ()) (hkey : root.primaryKey ≠ [])
    (hrelations : checkRelations s root o.relations = .ok ()) (hselect : o.select = some fields) :
    o.validate s root =
      (guardThat (missingRelations fields o.relations).isEmpty
        (missingError root (missingRelations fields o.relations)) >>= fun _ ↦
      (fields.forM (checkSelected s root) >>= fun _ ↦ o.checkCompared s root)) := by
  have hguard : guardThat (!root.primaryKey.isEmpty)
      ((QueryError.configuration (.noPrimaryKey root.name)).onModel root.name) = .ok () := by
    rw [guardThat_eq_ok]
    simpa using hkey
  have hvalidate : o.validate s root =
      (checkSelect s root o >>= fun _ ↦ o.checkCompared s root) := by
    rw [validate, hbounds, hguard, hrelations]
    rfl
  rw [hvalidate, checkSelect, hselect]
  exact bind_assoc _ _ _

/-- Where no relation is missing, no later check tells of one. -/
theorem code_ne_missingRelation (hbounds : o.checkBounds = .ok ()) (hkey : root.primaryKey ≠ [])
    (hrelations : checkRelations s root o.relations = .ok ()) (hselect : o.select = some fields)
    (hnone : missingRelations fields o.relations = []) {e : QueryError}
    (he : o.validate s root = .error e) : e.code ≠ .missingRelation := by
  have hother : FailsWith lostOnTheWay (o.validate s root) := by
    have howner := failsWith_ownerOf s root
    have hrelation : .invalidRelation ∈ lostOnTheWay := List.mem_cons_self
    rw [validate_eq hbounds hkey hrelations hselect, hnone]
    refine (FailsWith.forM fun f _ ↦ checkSelected_failsWith howner hrelation f).bind ?_
    intro _ _
    exact checkCompared_failsWith howner hrelation o
  have hmem := hother e he
  intro hcode
  rw [hcode] at hmem
  revert hmem
  decide

/-- Options that pass the checks of bounds, key and declared relations are refused for missing
relations exactly if the selection has any, whatever else is wrong with them, and the error holds
them all. -/
theorem lists_missing_of_validate (hbounds : o.checkBounds = .ok ()) (hkey : root.primaryKey ≠ [])
    (hrelations : checkRelations s root o.relations = .ok ()) (hselect : o.select = some fields) :
    ((∃ e, o.validate s root = .error e ∧ e.code = .missingRelation) ↔
      ∃ p, IsMissing fields o.relations p) ∧
    ∀ e, o.validate s root = .error e → e.code = .missingRelation →
      ListsMissing fields o.relations e.context.paths := by
  have hlists := listsMissing_missingRelations fields o.relations
  cases hmissing : missingRelations fields o.relations with
  | nil =>
    have hnever {e : QueryError} (he : o.validate s root = .error e) :
        e.code ≠ .missingRelation :=
      code_ne_missingRelation hbounds hkey hrelations hselect hmissing he
    have hnone : ¬∃ p, IsMissing fields o.relations p := by
      rintro ⟨p, hp⟩
      have hmem := (hlists.mem_iff p).2 hp
      rw [hmissing] at hmem
      exact List.not_mem_nil hmem
    refine ⟨iff_of_false ?_ hnone, fun e he hcode ↦ absurd hcode (hnever he)⟩
    rintro ⟨e, he, hcode⟩
    exact hnever he hcode
  | cons p paths =>
    have herror : o.validate s root = .error (missingError root (p :: paths)) := by
      rw [validate_eq hbounds hkey hrelations hselect, hmissing]
      rfl
    rw [hmissing] at hlists
    refine ⟨iff_of_true ⟨_, herror, rfl⟩ ⟨p, (hlists.mem_iff p).1 List.mem_cons_self⟩, ?_⟩
    intro e he _
    obtain rfl := Except.error.inj (herror.symm.trans he)
    exact hlists

def strayFields : List String :=
  ["colour", "employee.person.name", "employee.role", "tags.label", "employee.person.email"]

def strayOptions : QueryOptions :=
  { relations := ["employee"], select := some strayFields, sortBy := some "colour",
    searchFields := ["tags.label"] }

theorem lists_missing_of_validate_stray :
    strayOptions.checkBounds = .ok () ∧ Plan.payment.primaryKey ≠ [] ∧
    checkRelations Plan.payments Plan.payment strayOptions.relations = .ok () ∧
    strayOptions.select = some strayFields ∧
    ∃ e, strayOptions.validate Plan.payments Plan.payment = .error e ∧
      e.code = .missingRelation ∧
      ListsMissing strayFields strayOptions.relations e.context.paths := by
  have hbounds : strayOptions.checkBounds = .ok () := by decide +kernel
  have hkey : Plan.payment.primaryKey ≠ [] := by decide
  have hrelations : checkRelations Plan.payments Plan.payment strayOptions.relations = .ok () := by
    decide +kernel
  obtain ⟨hrefused, hlists⟩ :=
    lists_missing_of_validate (s := Plan.payments) hbounds hkey hrelations rfl
  have htags : IsMissing strayFields strayOptions.relations "tags" :=
    ⟨⟨"tags.label", by decide, "label", by decide, by decide⟩, by decide⟩
  obtain ⟨e, he, hcode⟩ := hrefused.2 ⟨"tags", htags⟩
  exact ⟨hbounds, hkey, hrelations, rfl, e, he, hcode, hlists e he hcode⟩

end QueryOptions

end Listing
