import Listing.Options.Validation
import Listing.Proofs.Outcome
import Listing.Proofs.Path

namespace Listing

theorem guardThat_eq_ok {condition : Bool} {e : QueryError} :
    guardThat condition e = .ok () ↔ condition := by
  cases condition <;> simp [guardThat]

theorem whileDoing_eq_ok {α : Type} {operation : String} {x : Except QueryError α} {a : α} :
    whileDoing operation x = .ok a ↔ x = .ok a := mapError_eq_ok

/-- The field that a filter is checked as. Without a relation its name may hold one. -/
def FilterCondition.checkedField (f : FilterCondition) : Field :=
  match f.relation with
  | some p => ⟨some p, f.field⟩
  | none => Field.ofText f.field

namespace QueryOptions

variable {s : Schema} {root : Entity} {declared : List Path}

/-- A physical column of the root or of a declared relation. -/
def IsComparable (s : Schema) (root : Entity) (declared : List Path) (f : Field) : Prop :=
  (∀ p, f.relation = some p → p.isCovered declared) ∧
    ∃ e, s.ownerOf root f = .ok e ∧ e.hasColumn f.column

/-- A column, maybe a virtual one, of the root or of a relation. -/
def IsSelectable (s : Schema) (root : Entity) (f : Field) : Prop :=
  ∃ e, s.ownerOf root f = .ok e ∧ e.declaresColumn f.column

def IsJoinable (s : Schema) (root : Entity) (p : Path) : Prop :=
  ∃ hops, s.resolvePath root p = .ok hops ∧ ∀ hop ∈ hops, hop.relation.joinColumns ≠ []

structure IsValid (s : Schema) (root : Entity) (o : QueryOptions) : Prop where
  page : 1 ≤ o.page
  limit : 1 ≤ o.limit ∧ o.limit ≤ maxLimit
  key : root.primaryKey ≠ []
  relations : ∀ p ∈ o.relations, IsJoinable s root p
  covered : ∀ fields, o.select = some fields → ∀ f ∈ fields, ∀ p,
    (Field.ofText f).relation = some p → p.isCovered o.relations
  select : ∀ fields, o.select = some fields → ∀ f ∈ fields, IsSelectable s root (Field.ofText f)
  sortBy : ∀ f, o.sortBy = some f → IsComparable s root o.relations (Field.ofText f)
  searchFields : ∀ f ∈ o.searchFields, IsComparable s root o.relations (Field.ofText f)
  dateField : ∀ f, o.dateField = some f → IsComparable s root o.relations (Field.ofText f)
  filters : ∀ f ∈ o.filters, IsComparable s root o.relations f.checkedField

theorem checkField_eq_ok {f : Field} {shown : String} :
    checkField s root declared f shown = .ok () ↔ IsComparable s root declared f := by
  rcases f with ⟨_ | p, column⟩
  · simp [checkField, IsComparable, bind_eq_ok, guardThat_eq_ok]
  · simp only [checkField, check_eq_ok]
    simp only [IsComparable, bind_eq_ok, guardThat_eq_ok, Option.some.injEq, forall_eq']

theorem IsComparable.covers {f : FilterCondition} {p : Path}
    (h : IsComparable s root declared f.checkedField) (hp : f.relation = some p) :
    p.isCovered declared := by
  refine h.1 p ?_
  simp [FilterCondition.checkedField, hp]

theorem checkText_eq_ok {field : String} :
    checkText s root declared field = .ok () ↔ IsComparable s root declared (Field.ofText field) :=
  checkField_eq_ok

theorem checkFilter_eq_ok {f : FilterCondition} :
    checkFilter s root declared f = .ok () ↔ IsComparable s root declared f.checkedField := by
  rw [checkFilter, FilterCondition.checkedField]
  cases f.relation with
  | none => exact checkText_eq_ok
  | some p => exact checkField_eq_ok

theorem checkSelected_eq_ok {field : String} :
    checkSelected s root field = .ok () ↔ IsSelectable s root (Field.ofText field) := by
  simp [checkSelected, IsSelectable, bind_eq_ok, guardThat_eq_ok]

theorem checkBounds_eq_ok {o : QueryOptions} :
    o.checkBounds = .ok () ↔ 1 ≤ o.page ∧ 1 ≤ o.limit ∧ o.limit ≤ maxLimit := by
  simp [checkBounds, check_eq_ok, guardThat_eq_ok]

theorem checkRelations_eq_ok {relations : List Path} :
    checkRelations s root relations = .ok () ↔ ∀ p ∈ relations, IsJoinable s root p := by
  simp only [checkRelations, checkHops, forM_eq_ok, bind_eq_ok, whileDoing_eq_ok, guardThat_eq_ok,
    IsJoinable, Bool.not_eq_true', List.isEmpty_eq_false_iff]

theorem missingRelations_eq_nil {fields : List String} :
    missingRelations fields declared = [] ↔
      ∀ f ∈ fields, ∀ p, (Field.ofText f).relation = some p → p.isCovered declared := by
  rw [missingRelations, List.eq_nil_iff_forall_not_mem]
  simp only [List.mem_eraseDups, List.mem_filterMap, Option.filter_eq_some_iff]
  constructor
  · intro h f hf p hp
    by_contra hc
    exact h p ⟨f, hf, hp, by simpa using hc⟩
  · rintro h p ⟨f, hf, hp, hc⟩
    simp [h f hf p hp] at hc

theorem checkSelect_eq_ok {o : QueryOptions} :
    checkSelect s root o = .ok () ↔
      (∀ fields, o.select = some fields → ∀ f ∈ fields, ∀ p,
        (Field.ofText f).relation = some p → p.isCovered o.relations) ∧
      ∀ fields, o.select = some fields → ∀ f ∈ fields, IsSelectable s root (Field.ofText f) := by
  rw [checkSelect]
  cases o.select with
  | none => simp
  | some fields =>
    simp only [check_eq_ok, guardThat_eq_ok, List.isEmpty_iff, missingRelations_eq_nil, forM_eq_ok,
      checkSelected_eq_ok, Option.some.injEq, forall_eq']

theorem validate_eq_ok {o : QueryOptions} : o.validate s root = .ok () ↔ IsValid s root o := by
  simp only [validate, check_eq_ok, checkBounds_eq_ok, guardThat_eq_ok, checkRelations_eq_ok,
    checkSelect_eq_ok, whileDoing_eq_ok, forM_eq_ok, checkText_eq_ok, checkFilter_eq_ok,
    Option.mem_toList, Bool.not_eq_true', List.isEmpty_eq_false_iff]
  constructor
  · rintro ⟨⟨hp, hl⟩, hk, hr, ⟨hc, hs⟩, hsort, hsearch, hdate, hf⟩
    exact ⟨hp, hl, hk, hr, hc, hs, hsort, hsearch, hdate, hf⟩
  · intro h
    exact ⟨⟨h.page, h.limit⟩, h.key, h.relations, ⟨h.covered, h.select⟩, h.sortBy, h.searchFields,
      h.dateField, h.filters⟩

end QueryOptions

end Listing
