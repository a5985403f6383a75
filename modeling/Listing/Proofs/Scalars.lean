import Listing.Connection.Exchange
import Listing.Proofs.Acceptance

namespace Listing

namespace FilterValue

/-- Whether there is no list within a list. -/
def isFlat : FilterValue → Bool
  | list items => items.all fun v ↦ !v.isList
  | _ => true

theorem isFlat_iff {v : FilterValue} : v.isFlat ↔ ∀ w ∈ v.expanded, ¬w.isList := by
  cases v <;> simp [isFlat, expanded, isList]

end FilterValue

/-- Whether a filter binds no list within a list. -/
def FilterCondition.bindsFlat (f : FilterCondition) : Bool := f.bound.all FilterValue.isFlat

theorem Conditions.searched_isFlat (o : QueryOptions) (t : AliasTable) :
    ∀ v ∈ (o.searched t).bindings.map (·.2), v.isFlat := by
  rcases searched_cases o t with h | ⟨term, columns, h⟩
  · simp [h]
  · rw [h, searching_bindings]
    simp [FilterValue.containing, FilterValue.isFlat]

def Statement.IsScalar (st : Statement) : Prop := ∀ v ∈ st.params, ¬v.isList

theorem Connection.checkScalars_eq_ok {st : Statement} :
    checkScalars st.params = .ok () ↔ st.IsScalar := by
  rw [checkScalars, Statement.IsScalar]
  split <;> simp_all

namespace Plan

variable {s : Schema} {root : Entity} {name : String} {o : QueryOptions} {p : Plan}
  {t : AliasTable}

theorem Compiled.values_conjunction (h : Compiled s root o p t) :
    (Draft.conjunction p).values = (p.bindings.map (·.2)).flatMap FilterValue.expanded := by
  rw [Draft.values_eq, Draft.filterMap_conjunction Draft.seesParams_value, h.params_eq, Keyed.keys,
    List.flatMap_map, List.flatMap_map]
  refine List.flatMap_congr fun e he ↦ ?_
  exact Draft.values_param (Keyed.get?_of_mem h.keys_nodup he)

theorem Compiled.values_eq (h : Compiled s root o p t) : (Draft.conjunction p).values =
    (o.filters.flatMap FilterCondition.bound).flatMap FilterValue.expanded ++
      ((o.searched t).bindings.map (·.2)).flatMap FilterValue.expanded := by
  rw [h.values_conjunction, h.bindings_eq, List.map_append, Conditions.compiled_bound,
    List.flatMap_append]

theorem Compiled.isScalar_conjunction (h : Compiled s root o p t) :
    (∀ v ∈ (Draft.conjunction p).values, ¬v.isList) ↔ ∀ f ∈ o.filters, f.bindsFlat := by
  simp only [h.values_eq, List.forall_mem_append, List.forall_mem_flatMap, ← FilterValue.isFlat_iff,
    FilterCondition.bindsFlat, List.all_eq_true]
  exact and_iff_left (Conditions.searched_isFlat o t)

theorem params_select (p : Plan) (d : Dialect) : ((Draft.select p).statement d).params =
    (Draft.conjunction p).values ++ if p.hasToMany then (Draft.conjunction p).values else [] :=
  Draft.filterMap_select Draft.seesParams_value p

theorem params_count (p : Plan) (d : Dialect) :
    ((Draft.count d p).statement d).params = (Draft.conjunction p).values :=
  Draft.filterMap_count Draft.seesParams_value d p

theorem Compiled.isScalar_select (h : Compiled s root o p t) (d : Dialect) :
    ((Draft.select p).statement d).IsScalar ↔ ∀ f ∈ o.filters, f.bindsFlat := by
  rw [Statement.IsScalar, params_select, ← h.isScalar_conjunction, List.forall_mem_append]
  split <;> simp

theorem Compiled.isScalar_count (h : Compiled s root o p t) (d : Dialect) :
    ((Draft.count d p).statement d).IsScalar ↔ ∀ f ∈ o.filters, f.bindsFlat := by
  rw [Statement.IsScalar, params_count, h.isScalar_conjunction]

/-- Both statements of a compiled plan hold scalars only, and so can be bound, exactly when no
filter binds a list within a list. -/
theorem isScalar_iff_of_compile (h : compile s name o = .ok p) (d : Dialect) :
    ∃ page count, p.selectStatement d = .ok page ∧ p.countStatement d = .ok count ∧
      (page.IsScalar ↔ ∀ f ∈ o.filters, f.bindsFlat) ∧
      (count.IsScalar ↔ ∀ f ∈ o.filters, f.bindsFlat) ∧
      (Connection.checkScalars page.params = .ok () ↔ ∀ f ∈ o.filters, f.bindsFlat) ∧
      (Connection.checkScalars count.params = .ok () ↔ ∀ f ∈ o.filters, f.bindsFlat) := by
  obtain ⟨root, t, -, hc⟩ := compile_ok h
  have hpage := hc.isScalar_select d
  have hcount := hc.isScalar_count d
  exact ⟨_, _, hc.isBound.selectStatement d, hc.isBound.countStatement d, hpage, hcount,
    Connection.checkScalars_eq_ok.trans hpage, Connection.checkScalars_eq_ok.trans hcount⟩

def listedAmounts : QueryOptions :=
  { filters := [⟨"amount", .isIn, .text "1, 2", none⟩,
      ⟨"amount", .between, .list [.int 1, .int 9], none⟩,
      ⟨"id", .like, .list [.list [.text "a"]], none⟩] }

theorem isScalar_iff_of_compile_listed : ∃ p, compile payments "Payment" listedAmounts = .ok p ∧
    ∃ page count, p.selectStatement .postgres = .ok page ∧
      p.countStatement .postgres = .ok count ∧ page.IsScalar ∧ count.IsScalar := by
  have hname : (compile payments "Payment" listedAmounts).toOption.map (·.rootName) =
      some "payment" := by
    decide +kernel
  obtain ⟨p, hp, -⟩ := exists_ok_of_map hname
  obtain ⟨page, count, hpage, hcount, hselect, htotal, -⟩ := isScalar_iff_of_compile hp .postgres
  have hflat : ∀ f ∈ listedAmounts.filters, f.bindsFlat := by decide
  exact ⟨p, hp, page, count, hpage, hcount, hselect.2 hflat, htotal.2 hflat⟩

def nestedAmounts : QueryOptions :=
  { filters := [⟨"amount", .isIn, .list [.int 1, .list [.int 2]], none⟩] }

/-- Options that pass the check and yet leave a list among the values of both statements, with which
they cannot be bound. -/
theorem params_of_nested_list : ∃ p, compile payments "Payment" nestedAmounts = .ok p ∧
    ∃ page count, p.selectStatement .postgres = .ok page ∧
      p.countStatement .postgres = .ok count ∧ ¬page.IsScalar ∧ ¬count.IsScalar ∧
      Connection.checkScalars page.params ≠ .ok () := by
  have hlists : (compile payments "Payment" nestedAmounts).toOption.map (fun p ↦
      ((p.selectStatement .postgres).toOption.map (·.params.map FilterValue.isList),
        (p.countStatement .postgres).toOption.map (·.params.map FilterValue.isList))) =
      some (some [false, true], some [false, true]) := by
    decide +kernel
  obtain ⟨p, hp, hstatements⟩ := exists_ok_of_map hlists
  obtain ⟨hpage, hcount⟩ := Prod.mk.inj hstatements
  obtain ⟨page, hpage, hpageLists⟩ := exists_ok_of_map hpage
  obtain ⟨count, hcount, hcountLists⟩ := exists_ok_of_map hcount
  have hnot (st : Statement) (h : st.params.map FilterValue.isList = [false, true]) :
      ¬st.IsScalar := by
    have htrue : true ∈ st.params.map FilterValue.isList := by simp [h]
    obtain ⟨v, hv, hlist⟩ := List.mem_map.1 htrue
    exact fun hscalar ↦ hscalar v hv hlist
  exact ⟨p, hp, page, count, hpage, hcount, hnot page hpageLists, hnot count hcountLists,
    mt Connection.checkScalars_eq_ok.1 (hnot page hpageLists)⟩

end Plan

end Listing
