import Listing.Proofs.Compilation
import Listing.Proofs.Keyed

namespace Listing

namespace Plan

def names (p : Plan) : List String := p.rootName :: p.joins.flatMap Join.names

/-- The names of the tables that stand for the root and for the relation paths. -/
def entityNames (p : Plan) : List String := p.rootName :: p.joins.map (·.name)

/-- A join is below the root, or below the join of its path's parent, which stands before it. -/
def HasParent (p : Plan) (before : List Join) (j : Join) : Prop :=
  (j.path.depth = 1 ∧ j.parentName = p.rootName) ∨
    ∃ i ∈ before, j.path.parent? = some i.path ∧ j.parentName = i.name

structure IsScoped (p : Plan) : Prop where
  distinct : p.names.Nodup
  paths : p.joinPaths.Nodup
  parents : ∀ before j after, p.joins = before ++ j :: after → p.HasParent before j
  conditions : ∀ j ∈ p.joins, ∀ c ∈ j.conditionColumns, c.table ∈ j.parentName :: j.names
  select : ∀ c ∈ p.select, c.column.table ∈ p.entityNames
  predicates : ∀ q ∈ p.predicates, ∀ c ∈ q.columns, c.table ∈ p.entityNames
  order : ∀ c ∈ p.order, c.column.table ∈ p.entityNames

end Plan

theorem JoinPlanner.Step.conditionColumns_table {planner : JoinPlanner}
    {projection : Option Projection} {t t' : AliasTable} {j : Join} {hops : List Schema.Hop}
    {hop : Schema.Hop} (h : planner.Step projection t j t' hops hop) :
    ∀ c ∈ j.conditionColumns, c.table ∈ j.parentName :: j.names := by
  intro c hc
  have hsoft : c ∈ j.softDelete.toList → c.table = j.name := by
    rw [h.softDelete]
    split
    · simp
    · intro hc
      obtain ⟨column, -, rfl⟩ := Option.map_eq_some_iff.1 (Option.mem_toList.1 hc)
      rfl
  simp only [Join.conditionColumns, List.mem_append] at hc
  cases h.connects with
  | direct _ _ hlink hon =>
    rw [hlink, hon] at hc
    rcases hc with (hc | hc) | hc
    · obtain ⟨pair, hpair, hc⟩ := List.mem_flatMap.1 hc
      obtain ⟨k, -, rfl⟩ := List.mem_map.1 hpair
      simp only [List.mem_cons, List.not_mem_nil, or_false] at hc
      rcases hc with rfl | rfl <;> simp [Join.names]
    · simp [Join.names, hsoft hc]
    · simp at hc
  | linked table keys rest link _ _ hlink hon =>
    rw [hlink, hon] at hc
    rcases hc with (hc | hc) | hc
    · simp only [List.flatMap_cons, List.flatMap_nil, List.mem_append, List.mem_cons,
        List.not_mem_nil, or_false] at hc
      rcases hc with rfl | rfl <;> simp [Join.names, hlink]
    · simp [Join.names, hsoft hc]
    · simp only [Option.toList_some, List.flatMap_cons, List.flatMap_nil, List.mem_append,
        List.mem_cons, List.not_mem_nil, or_false] at hc
      rcases hc with rfl | rfl <;> simp [Join.names, hlink]

theorem mem_of_lookup {joins : List Join} {q : Path} {a : String}
    (h : List.lookup q (joins.map fun j ↦ (j.path, j.name)) = some a) :
    ∃ i ∈ joins, i.path = q ∧ i.name = a := by
  obtain ⟨i, hi, he⟩ := List.mem_map.1 (Keyed.mem_of_get? h)
  obtain ⟨rfl, rfl⟩ := Prod.mk.inj he
  exact ⟨i, hi, rfl, rfl⟩

namespace Plan

variable {s : Schema} {root : Entity} {o : QueryOptions} {p : Plan} {t : AliasTable}

theorem Compiled.byPath (h : Compiled s root o p t) :
    t.byPath = p.joins.map fun j ↦ (j.path, j.name) := h.run.byPath

theorem Compiled.name_mem (h : Compiled s root o p t) {q : Option Path} {a : String}
    (ha : t.name? q = some a) : a ∈ p.entityNames := by
  cases q with
  | none =>
    obtain rfl : t.root = a := by simpa [AliasTable.name?] using ha
    exact List.mem_cons.2 (.inl h.rootName.symm)
  | some q =>
    rw [AliasTable.name?, AliasTable.get?, Keyed.get?, h.byPath] at ha
    obtain ⟨i, hi, -, rfl⟩ := mem_of_lookup ha
    exact List.mem_cons_of_mem _ (List.mem_map_of_mem hi)

theorem Compiled.settles (h : Compiled s root o p t) {f : Field}
    (hf : ∀ q, f.relation = some q → q.isCovered o.relations) : t.Settles f :=
  settles_of_covered h.run h.paths hf

theorem Compiled.ref_mem (h : Compiled s root o p t) {f : Field}
    (hf : ∀ q, f.relation = some q → q.isCovered o.relations) :
    (t.ref f).table ∈ p.entityNames := by
  obtain ⟨a, ha⟩ := Option.isSome_iff_exists.1 (h.settles hf)
  rw [AliasTable.ref_eq ha]
  exact h.name_mem ha

theorem Compiled.distinct (h : Compiled s root o p t) : p.names.Nodup := by
  have hn := h.run.fresh (by simp [AliasTable.ofRoot])
  rw [h.run.taken, AliasTable.ofRoot] at hn
  have hr : p.rootName = Alias.ofEntity root.name := h.rootName.trans h.run.root
  rw [names, hr]
  have hp : ((p.joins.flatMap Join.names).reverse ++ [Alias.ofEntity root.name]).Perm
      (Alias.ofEntity root.name :: p.joins.flatMap Join.names) := by
    rw [← List.reverse_cons]
    exact List.reverse_perm _
  exact hp.nodup_iff.1 hn

theorem Compiled.parents (h : Compiled s root o p t) {before after : List Join} {j : Join}
    (hj : p.joins = before ++ j :: after) : p.HasParent before j := by
  obtain ⟨u, u', hops, hop, hu, hb, hstep⟩ := h.run.steps before j after hj
  have hparent := hstep.parent
  cases hq : j.path.parent? with
  | none =>
    rw [hq, AliasTable.name?, hu, ← h.run.root, ← h.rootName] at hparent
    exact .inl ⟨by simp [Path.depth, Path.parent?_eq_none.1 hq], (Option.some.inj hparent).symm⟩
  | some q =>
    rw [hq, AliasTable.name?, AliasTable.get?, Keyed.get?, hb] at hparent
    obtain ⟨i, hi, rfl, hname⟩ := mem_of_lookup hparent
    exact .inr ⟨i, hi, hq, hname.symm⟩

theorem Compiled.select_mem (h : Compiled s root o p t) :
    ∀ c ∈ p.select, c.column.table ∈ p.entityNames := by
  intro c hc
  rw [h.select, List.mem_append] at hc
  rcases hc with hc | hc
  · obtain ⟨column, -, rfl⟩ := List.mem_map.1 hc
    exact List.mem_cons_self
  · obtain ⟨j, hj, hc⟩ := List.mem_flatMap.1 hc
    obtain ⟨column, -, rfl⟩ := List.mem_map.1 hc
    exact List.mem_cons_of_mem _ (List.mem_map_of_mem hj)

theorem Compiled.predicates_mem (h : Compiled s root o p t) :
    ∀ q ∈ p.predicates, ∀ c ∈ q.columns, c.table ∈ p.entityNames := by
  intro q hq c hc
  rw [h.predicates, List.mem_append, List.mem_append] at hq
  rcases hq with (hq | hq) | hq
  · obtain ⟨compiled, hcompiled, rfl⟩ := List.mem_map.1 hq
    obtain ⟨f, hf, k, hcompile⟩ := Conditions.mem_compiled hcompiled
    rw [FilterCondition.compile_columns hcompile, List.mem_singleton] at hc
    rw [hc]
    exact h.ref_mem fun _ hr ↦ (h.valid.filters f hf).covers hr
  · have hmem := Predicate.mem_groupColumns.2 ⟨q, hq, hc⟩
    rw [QueryOptions.searched_columns] at hmem
    split at hmem
    · obtain ⟨f, hf, rfl⟩ := List.mem_map.1 hmem
      exact h.ref_mem (h.valid.searchFields f hf).1
    · simp at hmem
  · rw [softDelete_columns hq hc]
    exact List.mem_cons_self

theorem Compiled.order_mem (h : Compiled s root o p t) :
    ∀ c ∈ p.order, c.column.table ∈ p.entityNames := by
  intro c hc
  rw [h.order, QueryOptions.ordered] at hc
  have hroot : t.root ∈ p.entityNames := h.rootName ▸ List.mem_cons_self
  cases hsort : o.sortBy with
  | none =>
    simp only [hsort] at hc
    split at hc
    · obtain rfl := List.mem_singleton.1 hc
      exact hroot
    · obtain ⟨column, -, rfl⟩ := List.mem_map.1 hc
      exact hroot
  | some f =>
    simp only [hsort] at hc
    obtain rfl := List.mem_singleton.1 hc
    exact h.ref_mem (h.valid.sortBy f hsort).1

/-- In a compiled plan no two tables share a name, every join stands below its parent, and every
column belongs to a table that is in reach. -/
theorem isScoped_of_compile {name : String} (h : compile s name o = .ok p) : p.IsScoped := by
  obtain ⟨root, t, -, hc⟩ := compile_ok h
  refine ⟨hc.distinct, ?_, fun _ _ _ hj ↦ hc.parents hj, ?_, hc.select_mem, hc.predicates_mem,
    hc.order_mem⟩
  · rw [hc.paths]
    exact Path.expand_nodup _
  · intro j hj
    obtain ⟨u, u', hops, hop, hstep⟩ := hc.step hj
    exact hstep.conditionColumns_table

def nodes : Schema :=
  .ofEntities [{
    name := "Node", table := "nodes", primaryKey := ["id"]
    columns := [⟨"id", false⟩, ⟨"label", false⟩, ⟨"parentId", false⟩, ⟨"deletedAt", false⟩]
    relations := [
      ⟨"node", "Node", .manyToOne, [⟨"parentId", "id"⟩], none, none⟩,
      ⟨"links", "Node", .manyToMany, [⟨"id", "id"⟩], some ⟨"links", "fromId", "toId"⟩, none⟩,
      ⟨"node_links", "Node", .oneToMany, [⟨"id", "parentId"⟩], none, none⟩]
    softDelete := some "deletedAt" }]

def nodeOptions : QueryOptions :=
  { relations := ["node_links", "node.links", "node"]
    search := some "x", searchFields := ["label", "node.links.label"]
    sortBy := some "node.label"
    filters := [⟨"label", .equals, .text "a", some "node_links"⟩] }

theorem isScoped_of_compile_nodes : ∃ p, compile nodes "Node" nodeOptions = .ok p ∧
    p.names = ["node", "node_links", "node_2", "node_links_2", "node_links_2_link"] ∧
    p.IsScoped := by
  have he : Path.expand nodeOptions.relations = ["node_links", "node", "node.links"] :=
    Path.expand_eq_of_ascending (by decide +kernel)
  have hnames : (compile nodes "Node" nodeOptions).toOption.map names =
      some ["node", "node_links", "node_2", "node_links_2", "node_links_2_link"] := by
    simp only [compile, ofChecked, JoinPlanner.plan, he]
    decide +kernel
  obtain ⟨p, hp, hn⟩ := exists_ok_of_map hnames
  exact ⟨p, hp, hn, isScoped_of_compile hp⟩

end Plan

end Listing
