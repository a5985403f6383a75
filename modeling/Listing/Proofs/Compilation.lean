import Listing.Plan.Compile
import Listing.Proofs.Conditions
import Listing.Proofs.Joins
import Listing.Proofs.Validation

namespace Listing

namespace QueryOptions

def planner (o : QueryOptions) (s : Schema) (root : Entity) : JoinPlanner :=
  { schema := s, root, exclusion := o.foreignKeyExclusion, withDeleted := o.withDeleted }

def projection (o : QueryOptions) (root : Entity) : Option Projection :=
  (o.planner ⟨[]⟩ root).projectionOf o.select o.sortBy

def searched (o : QueryOptions) (t : AliasTable) : Conditions :=
  ((o.search.bind Text.nonBlank?).bind fun term ↦
    if o.searchFields = [] then none
    else some (.searching term (o.searchFields.map fun f ↦ t.ref (Field.ofText f)))).getD ⟨[], []⟩

theorem searched_columns (o : QueryOptions) (t : AliasTable) :
    Predicate.groupColumns (o.searched t).predicates =
      if (o.search.bind Text.nonBlank?).isSome then
        o.searchFields.map fun f ↦ t.ref (Field.ofText f)
      else [] := by
  rw [searched]
  cases o.search.bind Text.nonBlank? with
  | none => rfl
  | some term =>
    by_cases h : o.searchFields = []
    · simp [h, Predicate.groupColumns]
    · simp [h, Conditions.searching_columns]

def ordered (o : QueryOptions) (root : Entity) (t : AliasTable) : List OrderBy :=
  match o.sortBy with
  | some field => [⟨t.ref (Field.ofText field), o.sortOrder⟩]
  | none =>
    if root.hasColumn Plan.defaultSortColumn then [⟨⟨t.root, Plan.defaultSortColumn⟩, .desc⟩]
    else root.primaryKey.map fun c ↦ ⟨⟨t.root, c⟩, .asc⟩

end QueryOptions

namespace Plan

/-- A plan compiled from valid options, with the table of its aliases. -/
structure Compiled (s : Schema) (root : Entity) (o : QueryOptions) (p : Plan) (t : AliasTable) :
    Prop where
  valid : o.IsValid s root
  run : JoinPlanner.Run (o.planner s root) (o.projection root) (.ofRoot root.name) p.joins t
  paths : p.joinPaths = Path.expand o.relations
  rootEntity : p.rootEntity = root.name
  rootTable : p.rootTable = root.table
  rootName : p.rootName = t.root
  primaryKey : p.primaryKey = root.primaryKey
  select : p.select = ((o.planner s root).rootColumns (o.projection root)).map
      (SelectColumn.ofRoot p.rootName) ++
    p.joins.flatMap fun j ↦ j.columns.map (SelectColumn.ofJoin j.path j.name)
  predicates : p.predicates = (Conditions.compiled t 0 o.filters).map (·.1) ++
    (o.searched t).predicates ++ softDeletePredicates root p.rootName o.withDeleted
  bindings : p.bindings = Keyed.putAll
    (Keyed.putAll [] ((Conditions.compiled t 0 o.filters).flatMap (·.2))) (o.searched t).bindings
  order : p.order = o.ordered root t
  window : p.window = o.window

theorem mem_softDeletePredicates {root : Entity} {name : String} {withDeleted : Bool}
    {q : Predicate} (hq : q ∈ softDeletePredicates root name withDeleted) :
    ∃ column ∈ root.softDelete, q = .null ⟨name, column⟩ false := by
  rw [softDeletePredicates] at hq
  split at hq
  · simp at hq
  · obtain ⟨column, hcolumn, rfl⟩ := List.mem_map.1 hq
    exact ⟨column, Option.mem_toList.1 hcolumn, rfl⟩

theorem softDelete_columns {root : Entity} {name : String} {withDeleted : Bool} {q : Predicate}
    {c : ColumnRef} (hq : q ∈ softDeletePredicates root name withDeleted) (hc : c ∈ q.columns) :
    c.table = name := by
  obtain ⟨column, -, rfl⟩ := mem_softDeletePredicates hq
  rw [Predicate.columns, List.mem_singleton] at hc
  rw [hc]

theorem ordered_ofRoot (entity : String) (declared : List Path) :
    JoinPlanner.Ordered (.ofRoot entity) (Path.expand declared) := by
  intro before p after h
  have hn := Path.expand_nodup declared
  rw [h] at hn
  refine ⟨rfl, ?_, fun q hq ↦ .inl (Path.parent_mem_before h hq)⟩
  intro hp
  exact (List.nodup_append.1 hn).2.2 p hp p (by simp) rfl

theorem plan_ok {planner : JoinPlanner} {relations : List Path} {select : Option (List String)}
    {sortBy : Option String} {entity : String} {joined : JoinPlan} {t : AliasTable}
    (h : planner.plan relations select sortBy (.ofRoot entity) = .ok (joined, t)) :
    joined.joins.map (·.path) = Path.expand relations ∧
      planner.Run (planner.projectionOf select sortBy) (.ofRoot entity) joined.joins t ∧
      joined.select = (planner.rootColumns (planner.projectionOf select sortBy)).map
          (SelectColumn.ofRoot t.root) ++
        joined.joins.flatMap fun j ↦ j.columns.map (SelectColumn.ofJoin j.path j.name) := by
  obtain ⟨⟨joins, t'⟩, hj, h⟩ := bind_eq_ok.1 h
  simp only [pure_eq_ok, Prod.mk.injEq] at h
  obtain ⟨rfl, rfl⟩ := h
  obtain ⟨hpaths, hrun⟩ := JoinPlanner.joinsOf_run hj (ordered_ofRoot entity relations)
  exact ⟨hpaths, hrun, by rw [hrun.root]⟩

theorem settles_of_covered {planner : JoinPlanner} {projection : Option Projection}
    {joins : List Join} {entity : String} {t : AliasTable} {declared : List Path} {f : Field}
    (hrun : planner.Run projection (.ofRoot entity) joins t)
    (hpaths : joins.map (·.path) = Path.expand declared)
    (hf : ∀ p, f.relation = some p → p.isCovered declared) : t.Settles f := by
  rcases f with ⟨_ | p, column⟩
  · rfl
  · have hp : p ∈ joins.map (·.path) := hpaths ▸ Path.mem_expand.2 (hf p rfl)
    obtain ⟨j, hj, rfl⟩ := List.mem_map.1 hp
    have hbyPath : t.byPath = joins.map fun j ↦ (j.path, j.name) := hrun.byPath
    rw [AliasTable.Settles, AliasTable.name?, AliasTable.get?, Keyed.get?, hbyPath,
      List.lookup_isSome_iff]
    exact ⟨_, List.mem_map_of_mem hj, by simp⟩

theorem orderOf_settled {root : Entity} {o : QueryOptions} {t : AliasTable}
    (h : ∀ f, o.sortBy = some f → t.Settles (Field.ofText f)) :
    orderOf root o t = (o.ordered root t, t) := by
  rw [orderOf, QueryOptions.ordered]
  cases hsort : o.sortBy with
  | none =>
    dsimp only
    split
    · rfl
    · rfl
  | some f =>
    dsimp only
    rw [AliasTable.column_settled (h f hsort)]

/-- The plan that valid options amount to once the joins are planned. -/
def assembled (root : Entity) (o : QueryOptions) (joined : JoinPlan) (t : AliasTable) : Plan :=
  { rootEntity := root.name
    rootTable := root.table
    rootName := t.root
    primaryKey := root.primaryKey
    joins := joined.joins
    select := joined.select
    predicates := (Conditions.compiled t 0 o.filters).map (·.1) ++ (o.searched t).predicates ++
      softDeletePredicates root t.root o.withDeleted
    bindings := Keyed.putAll
      (Keyed.putAll [] ((Conditions.compiled t 0 o.filters).flatMap (·.2))) (o.searched t).bindings
    order := o.ordered root t
    window := o.window }

variable {s : Schema} {name : String} {root : Entity} {o : QueryOptions} {p : Plan}
  {joined : JoinPlan} {t : AliasTable}

theorem ofChecked_eq (hv : o.IsValid s root)
    (hplan : (o.planner s root).plan o.relations o.select o.sortBy (.ofRoot root.name) =
      .ok (joined, t)) : ofChecked s root o = .ok (assembled root o joined t) := by
  obtain ⟨hpaths, hrun, -⟩ := plan_ok hplan
  have hfilters : ∀ f ∈ o.filters, t.Settles f.target := fun f hf ↦
    settles_of_covered hrun hpaths fun _ hp ↦ (hv.filters f hf).covers hp
  have hsearch : ∀ f ∈ o.searchFields, t.Settles (Field.ofText f) := fun f hf ↦
    settles_of_covered hrun hpaths (hv.searchFields f hf).1
  have hsort : ∀ f, o.sortBy = some f → t.Settles (Field.ofText f) := fun f hf ↦
    settles_of_covered hrun hpaths (hv.sortBy f hf).1
  refine bind_eq_ok.2 ⟨(joined, t), hplan, ?_⟩
  dsimp only
  rw [Conditions.ofFilters_settled hfilters]
  dsimp only
  rw [Conditions.ofSearch_settled hsearch]
  dsimp only
  rw [orderOf_settled hsort]
  rfl

/-- Compiling is checking, planning the joins, and then assembling what can no longer fail. -/
theorem compile_eq_ok : compile s name o = .ok p ↔ ∃ root joined t,
    s.requireEntity name = .ok root ∧ o.IsValid s root ∧
      (o.planner s root).plan o.relations o.select o.sortBy (.ofRoot root.name) =
        .ok (joined, t) ∧ assembled root o joined t = p := by
  constructor
  · intro h
    obtain ⟨root, hroot, h⟩ := bind_eq_ok.1 h
    obtain ⟨hvalid, h⟩ := check_eq_ok.1 h
    have hv := QueryOptions.validate_eq_ok.1 hvalid
    obtain ⟨⟨joined, t⟩, hplan, -⟩ := bind_eq_ok.1 h
    rw [ofChecked_eq hv hplan] at h
    exact ⟨root, joined, t, hroot, hv, hplan, Except.ok.inj h⟩
  · rintro ⟨root, joined, t, hroot, hv, hplan, rfl⟩
    exact bind_eq_ok.2 ⟨root, hroot,
      check_eq_ok.2 ⟨QueryOptions.validate_eq_ok.2 hv, ofChecked_eq hv hplan⟩⟩

theorem compiled_assembled (hv : o.IsValid s root)
    (hplan : (o.planner s root).plan o.relations o.select o.sortBy (.ofRoot root.name) =
      .ok (joined, t)) : Compiled s root o (assembled root o joined t) t := by
  obtain ⟨hpaths, hrun, hselect⟩ := plan_ok hplan
  exact {
    valid := hv, run := hrun, paths := hpaths, rootEntity := rfl, rootTable := rfl, rootName := rfl
    primaryKey := rfl, select := hselect, predicates := rfl, bindings := rfl, order := rfl
    window := rfl }

theorem compile_ok (h : compile s name o = .ok p) :
    ∃ root t, s.requireEntity name = .ok root ∧ Compiled s root o p t := by
  obtain ⟨root, joined, t, hroot, hv, hplan, rfl⟩ := compile_eq_ok.1 h
  exact ⟨root, t, hroot, compiled_assembled hv hplan⟩

theorem Compiled.step (h : Compiled s root o p t) {j : Join} (hj : j ∈ p.joins) :
    ∃ u u' hops hop, (o.planner s root).Step (o.projection root) u j u' hops hop := by
  obtain ⟨before, after, hsplit⟩ := List.append_of_mem hj
  obtain ⟨u, u', hops, hop, -, -, hstep⟩ := h.run.steps before j after hsplit
  exact ⟨u, u', hops, hop, hstep⟩

end Plan

end Listing
