import Listing.Proofs.Scoping

namespace Listing

namespace FilterCondition

/-- Without a relation the name of the filter's field holds none either. -/
def IsPlain (f : FilterCondition) : Prop := f.relation = none → '.' ∉ f.field.toList

theorem checkedField_eq_target {f : FilterCondition} (h : f.IsPlain) :
    f.checkedField = f.target := by
  rw [checkedField, target]
  cases hr : f.relation with
  | none => exact Field.ofText_of_not_dot (h hr)
  | some q => rfl

theorem isPlain_of_column_eq {f : FilterCondition} (h : f.field = f.checkedField.column) :
    f.IsPlain := by
  intro hr
  rw [checkedField, hr] at h
  rw [h]
  exact Field.not_dot_mem_column f.field

end FilterCondition

namespace QueryOptions

def keptFilters (o : QueryOptions) : List FilterCondition := o.filters.filter (·.isKept)

def searchedFields (o : QueryOptions) : List String :=
  if (o.search.bind Text.nonBlank?).isSome then o.searchFields else []

end QueryOptions

namespace Plan

variable {s : Schema} {root : Entity} {o : QueryOptions} {p : Plan} {t : AliasTable}

/-- The entity whose rows a table of the statement holds. -/
def StandsFor (p : Plan) (s : Schema) (root : Entity) (name : String) (e : Entity) : Prop :=
  (name = p.rootName ∧ e = root) ∨ ∃ j ∈ p.joins, name = j.name ∧ s.targetOf root j.path = .ok e

/-- A physical column of the entity its table stands for, the one that was checked for a field. -/
def IsChecked (p : Plan) (s : Schema) (root : Entity) (f : Field) (c : ColumnRef) : Prop :=
  ∃ e, p.StandsFor s root c.table e ∧ e.hasColumn c.column ∧ s.ownerOf root f = .ok e ∧
    c.column = f.column

theorem Compiled.isChecked (h : Compiled s root o p t) {f : Field}
    (hf : QueryOptions.IsComparable s root o.relations f) : p.IsChecked s root f (t.ref f) := by
  obtain ⟨hcovered, e, he, hcolumn⟩ := hf
  obtain ⟨a, ha⟩ := Option.isSome_iff_exists.1 (h.settles hcovered)
  rw [AliasTable.ref_eq ha]
  refine ⟨e, ?_, hcolumn, he, rfl⟩
  rcases f with ⟨_ | q, column⟩
  · refine .inl ⟨?_, (Except.ok.inj he).symm⟩
    rw [h.rootName]
    exact (Option.some.inj ha).symm
  · simp only [AliasTable.name?, AliasTable.get?, Keyed.get?, h.byPath] at ha
    obtain ⟨j, hj, rfl, rfl⟩ := mem_of_lookup ha
    exact .inr ⟨j, hj, rfl, he⟩

theorem Compiled.filter_isChecked (h : Compiled s root o p t) {f : FilterCondition}
    (hf : f ∈ o.filters) : p.IsChecked s root f.checkedField (t.ref f.target) ↔ f.IsPlain := by
  constructor
  · rintro ⟨-, -, -, -, hcolumn⟩
    refine FilterCondition.isPlain_of_column_eq (Eq.trans ?_ hcolumn)
    have hsettled := h.settles (f := f.target) fun _ hr ↦ (h.valid.filters f hf).covers hr
    obtain ⟨a, ha⟩ := Option.isSome_iff_exists.1 hsettled
    rw [AliasTable.ref_eq ha, FilterCondition.target]
  · intro hplain
    rw [← FilterCondition.checkedField_eq_target hplain]
    exact h.isChecked (h.valid.filters f hf)

/-- Filters, search and order by the columns they refer to. The reference of a filter is to what was
checked for it if and only if the filter is plain; those of search and order always are. -/
def RefersAsChecked (p : Plan) (s : Schema) (root : Entity) (o : QueryOptions) : Prop :=
  ∃ filtered searched, p.predicates = filtered ++ searched ++
      softDeletePredicates root p.rootName o.withDeleted ∧
    List.Forall₂ (fun f q ↦ ∃ c, q.columns = [c] ∧
      (p.IsChecked s root f.checkedField c ↔ f.IsPlain)) o.keptFilters filtered ∧
    List.Forall₂ (fun f c ↦ p.IsChecked s root (Field.ofText f) c) o.searchedFields
      (Predicate.groupColumns searched) ∧
    ∀ f, o.sortBy = some f →
      ∃ c, p.order = [⟨c, o.sortOrder⟩] ∧ p.IsChecked s root (Field.ofText f) c

theorem refersAsChecked_of_compile {name : String} (hroot : s.requireEntity name = .ok root)
    (h : compile s name o = .ok p) : p.RefersAsChecked s root o := by
  obtain ⟨root', t, hroot', hc⟩ := compile_ok h
  obtain rfl : root' = root := Except.ok.inj (hroot'.symm.trans hroot)
  refine ⟨_, _, hc.predicates, ?_, ?_, ?_⟩
  · refine (Conditions.compiled_forall₂ t 0 o.filters).imp ?_
    rintro f q ⟨hf, k, entries, hq⟩
    exact ⟨t.ref f.target, FilterCondition.compile_columns hq, hc.filter_isChecked hf⟩
  · rw [QueryOptions.searched_columns, QueryOptions.searchedFields]
    split
    · rw [List.forall₂_map_right_iff, List.forall₂_same]
      exact fun f hf ↦ hc.isChecked (hc.valid.searchFields f hf)
    · exact .nil
  · intro f hf
    refine ⟨t.ref (Field.ofText f), ?_, hc.isChecked (hc.valid.sortBy f hf)⟩
    rw [hc.order, QueryOptions.ordered, hf]

def payment : Entity :=
  { name := "Payment", table := "payments", primaryKey := ["id"]
    columns := [⟨"id", false⟩, ⟨"amount", false⟩, ⟨"employeeId", false⟩]
    relations := [⟨"employee", "Employee", .manyToOne, [⟨"employeeId", "id"⟩], none, none⟩]
    softDelete := none }

def payments : Schema :=
  .ofEntities [payment,
    { name := "Employee", table := "employees", primaryKey := ["id"]
      columns := [⟨"id", false⟩, ⟨"role", false⟩], relations := [], softDelete := none }]

def byRole : QueryOptions :=
  { relations := ["employee"], search := some "ops", searchFields := ["employee.role"]
    sortBy := some "employee.role"
    filters := [⟨"role", .equals, .text "ops", some "employee"⟩,
      ⟨"employee.role", .equals, .text "ops", none⟩] }

theorem refersAsChecked_of_compile_byRole : ∃ p, compile payments "Payment" byRole = .ok p ∧
    p.RefersAsChecked payments payment byRole := by
  have he : Path.expand byRole.relations = ["employee"] :=
    Path.expand_eq_of_ascending (by decide +kernel)
  have hname : (compile payments "Payment" byRole).toOption.map (·.rootName) = some "payment" := by
    simp only [compile, ofChecked, JoinPlanner.plan, he]
    decide +kernel
  obtain ⟨p, hp, -⟩ := exists_ok_of_map hname
  exact ⟨p, hp, refersAsChecked_of_compile rfl hp⟩

/-- Options that pass the check and yet compare a column that no table of the statement has. -/
theorem reference_of_dotted_filter : ∃ p, compile payments "Payment" byRole = .ok p ∧
    ∃ q ∈ p.predicates, ∃ c ∈ q.columns,
      ∀ e, p.StandsFor payments payment c.table e → e.hasColumn c.column = false := by
  have he : Path.expand byRole.relations = ["employee"] :=
    Path.expand_eq_of_ascending (by decide +kernel)
  have hplan : (compile payments "Payment" byRole).toOption.map (fun p ↦
      (p.rootName, p.joins.map (·.name), p.predicates.map (·.columns))) =
      some ("payment", ["employee"], [[⟨"employee", "role"⟩], [⟨"payment", "employee.role"⟩],
        [⟨"employee", "role"⟩]]) := by
    simp only [compile, ofChecked, JoinPlanner.plan, he]
    decide +kernel
  obtain ⟨p, hp, hv⟩ := exists_ok_of_map hplan
  simp only [Prod.mk.injEq] at hv
  obtain ⟨hname, hjoins, hcolumns⟩ := hv
  have hmem : [⟨"payment", "employee.role"⟩] ∈ p.predicates.map (·.columns) := by simp [hcolumns]
  obtain ⟨q, hq, hc⟩ := List.mem_map.1 hmem
  refine ⟨p, hp, q, hq, ⟨"payment", "employee.role"⟩, by simp [hc], ?_⟩
  rintro e (⟨-, rfl⟩ | ⟨j, hj, hj', -⟩)
  · decide
  · have := List.mem_map_of_mem (f := Join.name) hj
    simp [hjoins, ← hj'] at this

end Plan

end Listing
