import Listing.Plan.Joins
import Listing.Proofs.Alias
import Listing.Proofs.Outcome

namespace Listing

namespace Join

def names (j : Join) : List String := j.name :: j.link.toList.map (·.name)

def conditionColumns (j : Join) : List ColumnRef :=
  j.on.flatMap (fun (a, b) ↦ [a, b]) ++ j.softDelete.toList ++
    j.link.toList.flatMap fun l ↦ [l.onParent.1, l.onParent.2]

/-- The conditions of a relation: all its pairs, or the first pair by way of a table of pairs. -/
inductive Connects (r : Relation) (j : Join) : Prop
  | direct : r.joinTable = none → r.joinColumns ≠ [] → j.link = none →
      j.on = r.joinColumns.map (fun k ↦
        (⟨j.name, k.referenced⟩, ⟨j.parentName, k.localColumn⟩)) → Connects r j
  | linked (table : JoinTable) (keys : JoinPair) (rest : List JoinPair) (link : String) :
      r.joinTable = some table → r.joinColumns = keys :: rest →
      j.link = some ⟨table.table, link,
        (⟨link, table.sourceColumn⟩, ⟨j.parentName, keys.localColumn⟩)⟩ →
      j.on = [(⟨j.name, keys.referenced⟩, ⟨link, table.targetColumn⟩)] → Connects r j

end Join

namespace JoinPlanner

/-- What one step of joining amounts to, between the alias tables before and after it. -/
structure Step (planner : JoinPlanner) (projection : Option Projection) (t : AliasTable) (j : Join)
    (t' : AliasTable) (hops : List Schema.Hop) (hop : Schema.Hop) : Prop where
  resolves : planner.schema.resolvePath planner.root j.path = .ok hops
  last : hops.getLast? = some hop
  parent : t.name? j.path.parent? = some j.parentName
  table : j.table = hop.target.table
  kind : j.kind = hop.relation.kind
  many : j.many = hops.any (·.relation.kind.isMany)
  brings : (j.mode, j.columns) = planner.columnsOf projection j.path hop.target
  connects : j.Connects hop.relation
  softDelete : j.softDelete = if planner.withDeleted then none
    else hop.target.softDelete.map fun column ↦ ⟨j.name, column⟩
  primaryKey : j.primaryKey = hop.target.primaryKey
  root : t'.root = t.root
  byPath : t'.byPath = t.byPath ++ [(j.path, j.name)]
  taken : t'.taken = j.names.reverse ++ t.taken
  fresh : t.taken.Nodup → t'.taken.Nodup

variable {planner : JoinPlanner} {projection : Option Projection} {p : Path} {t t' : AliasTable}
  {j : Join}

theorem Step.targetOf {hops : List Schema.Hop} {hop : Schema.Hop}
    (h : Step planner projection t j t' hops hop) :
    planner.schema.targetOf planner.root j.path = .ok hop.target :=
  bind_eq_ok.2 ⟨hops, h.resolves, by rw [h.last]; rfl⟩

theorem conditionOf_ok {hop : Schema.Hop} {name parentName : String}
    {on : List (ColumnRef × ColumnRef)} {link : Option Link}
    (h : conditionOf hop name parentName t = .ok ((on, link), t')) :
    (hop.relation.joinTable = none ∧ hop.relation.joinColumns ≠ [] ∧ link = none ∧ t' = t ∧
      on = hop.relation.joinColumns.map fun k ↦
        (⟨name, k.referenced⟩, ⟨parentName, k.localColumn⟩)) ∨
    ∃ table keys rest linkName, hop.relation.joinTable = some table ∧
      hop.relation.joinColumns = keys :: rest ∧ t.reserve (name ++ "_link") = (linkName, t') ∧
      link = some ⟨table.table, linkName,
        (⟨linkName, table.sourceColumn⟩, ⟨parentName, keys.localColumn⟩)⟩ ∧
      on = [(⟨name, keys.referenced⟩, ⟨linkName, table.targetColumn⟩)] := by
  rw [conditionOf] at h
  cases hkeys : hop.relation.joinColumns with
  | nil => simp [hkeys] at h
  | cons keys rest =>
    rw [hkeys] at h
    cases htable : hop.relation.joinTable with
    | some table =>
      simp only [htable, Except.ok.injEq, Prod.mk.injEq] at h
      obtain ⟨⟨rfl, rfl⟩, rfl⟩ := h
      exact .inr ⟨table, keys, rest, _, rfl, rfl, rfl, rfl, rfl⟩
    | none =>
      simp only [htable, Except.ok.injEq, Prod.mk.injEq] at h
      obtain ⟨⟨rfl, rfl⟩, rfl⟩ := h
      exact .inl ⟨rfl, List.cons_ne_nil _ _, rfl, rfl, rfl⟩

theorem joinOf_step {a : String} (h : planner.joinOf projection p t = .ok (j, t'))
    (hp : t.get? p = none) (ha : t.name? p.parent? = some a) :
    j.path = p ∧ ∃ hops hop, Step planner projection t j t' hops hop := by
  obtain ⟨hops, hhops, h⟩ := bind_eq_ok.1 h
  cases hlast : hops.getLast? with
  | none => simp [hlast] at h
  | some hop =>
    rw [hlast, AliasTable.resolve?_eq ha] at h
    dsimp only at h
    rw [AliasTable.resolve_new hp] at h
    obtain ⟨⟨⟨on, link⟩, u⟩, hcond, h⟩ := bind_eq_ok.1 h
    simp only [pure_eq_ok, Prod.mk.injEq] at h
    obtain ⟨rfl, rfl⟩ := h
    have hname := AliasTable.reserve_not_mem t (Alias.ofPath p)
    refine ⟨rfl, hops, hop, ?_⟩
    rcases JoinPlanner.conditionOf_ok hcond with
      ⟨htable, hkeys, rfl, rfl, rfl⟩ | ⟨table, keys, rest, link, htable, hkeys, hlink, rfl, rfl⟩
    · exact {
        resolves := hhops, last := hlast, parent := ha, table := rfl, kind := rfl, many := rfl
        brings := rfl, softDelete := rfl, primaryKey := rfl, root := rfl, byPath := rfl
        taken := rfl
        connects := .direct htable hkeys rfl rfl
        fresh := fun hn ↦ List.nodup_cons.2 ⟨hname, hn⟩ }
    · obtain rfl : link = _ := (congrArg Prod.fst hlink).symm
      obtain rfl : u = _ := (congrArg Prod.snd hlink).symm
      exact {
        resolves := hhops, last := hlast, parent := ha, table := rfl, kind := rfl, many := rfl
        brings := rfl, softDelete := rfl, primaryKey := rfl, root := rfl, byPath := rfl
        taken := rfl
        connects := .linked table keys rest _ htable hkeys rfl rfl
        fresh := fun hn ↦ List.nodup_cons.2
          ⟨AliasTable.reserve_not_mem _ _, List.nodup_cons.2 ⟨hname, hn⟩⟩ }

/-- What a run of joining amounts to. Every join is a step from the table that the joins before it
lead to. -/
structure Run (planner : JoinPlanner) (projection : Option Projection) (t : AliasTable)
    (joins : List Join) (t' : AliasTable) : Prop where
  root : t'.root = t.root
  byPath : t'.byPath = t.byPath ++ joins.map fun j ↦ (j.path, j.name)
  taken : t'.taken = (joins.flatMap Join.names).reverse ++ t.taken
  fresh : t.taken.Nodup → t'.taken.Nodup
  steps : ∀ before j after, joins = before ++ j :: after → ∃ u u' hops hop,
    u.root = t.root ∧ (u.byPath = t.byPath ++ before.map fun j ↦ (j.path, j.name)) ∧
      Step planner projection u j u' hops hop

/-- The paths are new, and the parent of each has an alias by then. -/
def Ordered (t : AliasTable) (ps : List Path) : Prop :=
  ∀ before p after, ps = before ++ p :: after → t.get? p = none ∧ p ∉ before ∧
    ∀ q, p.parent? = some q → q ∈ before ∨ (t.get? q).isSome

theorem Ordered.parent {p : Path} {ps : List Path} (h : Ordered t (p :: ps)) :
    ∃ a, t.name? p.parent? = some a := by
  cases hparent : p.parent? with
  | none => exact ⟨t.root, rfl⟩
  | some q =>
    rcases (h [] p ps rfl).2.2 q hparent with hq | hq
    · simp at hq
    · exact Option.isSome_iff_exists.1 hq

theorem Ordered.tail {p : Path} {ps : List Path} {a : String} {u : AliasTable}
    (h : Ordered t (p :: ps)) (hu : u.byPath = t.byPath ++ [(p, a)]) : Ordered u ps := by
  have hget := AliasTable.get?_eq hu
  rintro before q after rfl
  obtain ⟨hq, hnot, hparent⟩ := h (p :: before) q after rfl
  simp only [List.mem_cons, not_or] at hnot
  refine ⟨?_, hnot.2, fun r hr ↦ ?_⟩
  · have hne : (q == p) = false := by simpa using hnot.1
    simp [hget, hq, Keyed.get?, hne]
  · rcases hparent r hr with hr | hr
    · rcases List.mem_cons.1 hr with rfl | hr
      · exact .inr (by simp [hget, Keyed.get?])
      · exact .inl hr
    · exact .inr (by simp [hget, hr])

theorem Run.nil : Run planner projection t [] t :=
  ⟨rfl, by simp, by simp, id, by simp⟩

theorem Run.cons {u : AliasTable} {joins : List Join} {hops : List Schema.Hop} {hop : Schema.Hop}
    (hstep : Step planner projection t j u hops hop) (hrun : Run planner projection u joins t') :
    Run planner projection t (j :: joins) t' := by
  refine ⟨?_, ?_, ?_, ?_, ?_⟩
  · rw [hrun.root, hstep.root]
  · simp [hrun.byPath, hstep.byPath]
  · simp [hrun.taken, hstep.taken]
  · exact fun hn ↦ hrun.fresh (hstep.fresh hn)
  · intro before j' after hsplit
    cases before with
    | nil =>
      obtain ⟨rfl, rfl⟩ := List.cons.inj hsplit
      exact ⟨t, u, hops, hop, rfl, by simp, hstep⟩
    | cons b before =>
      obtain ⟨rfl, hsplit'⟩ := List.cons.inj hsplit
      obtain ⟨v, v', hops', hop', hv, hb, hs⟩ := hrun.steps before j' after hsplit'
      exact ⟨v, v', hops', hop', hv.trans hstep.root, by simp [hb, hstep.byPath], hs⟩

theorem joinsOf_run {ps : List Path} {joins : List Join}
    (h : planner.joinsOf projection ps t = .ok (joins, t')) (ho : Ordered t ps) :
    joins.map (·.path) = ps ∧ Run planner projection t joins t' := by
  induction ps generalizing t joins with
  | nil =>
    simp only [joinsOf, Except.ok.injEq, Prod.mk.injEq] at h
    obtain ⟨rfl, rfl⟩ := h
    exact ⟨rfl, .nil⟩
  | cons p ps ih =>
    obtain ⟨⟨j, u⟩, hj, h⟩ := bind_eq_ok.1 h
    obtain ⟨⟨rest, u'⟩, hrest, h⟩ := bind_eq_ok.1 h
    simp only [pure_eq_ok, Prod.mk.injEq] at h
    obtain ⟨rfl, rfl⟩ := h
    obtain ⟨a, ha⟩ := ho.parent
    obtain ⟨rfl, hops, hop, hstep⟩ := joinOf_step hj (ho [] p ps rfl).1 ha
    obtain ⟨hpaths, hrun⟩ := ih hrest (ho.tail hstep.byPath)
    exact ⟨by simp [hpaths], hrun.cons hstep⟩

end JoinPlanner

end Listing
