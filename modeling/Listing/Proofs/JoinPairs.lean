import Listing.Proofs.Deletion
import Listing.Proofs.Prefixes
import Listing.Proofs.Selection
import Listing.Proofs.Soundness

namespace Listing

namespace Join

/-- The columns that the conditions of a join equate, those of a table of pairs among them. -/
def equated (j : Join) : List ColumnRef :=
  j.on.flatMap (fun (a, b) ↦ [a, b]) ++ j.link.toList.flatMap fun l ↦ [l.onParent.1, l.onParent.2]

/-- A pair of the relation takes part in the conditions of a join: as a condition of its own, or
with the columns of a table of pairs between its two sides. -/
def Uses (j : Join) (r : Relation) (k : JoinPair) : Prop :=
  match r.joinTable with
  | none => (⟨j.name, k.referenced⟩, ⟨j.parentName, k.localColumn⟩) ∈ j.on
  | some table => ∃ l, j.link = some l ∧ l.table = table.table ∧
      l.onParent = (⟨l.name, table.sourceColumn⟩, ⟨j.parentName, k.localColumn⟩) ∧
      (⟨j.name, k.referenced⟩, ⟨l.name, table.targetColumn⟩) ∈ j.on

variable {j : Join} {r : Relation} {k : JoinPair} {c : ColumnRef}

theorem Connects.uses_iff (h : j.Connects r) (hk : k ∈ r.joinColumns) :
    j.Uses r k ↔ r.joinTable = none ∨ r.joinColumns.head? = some k := by
  cases h with
  | direct htable _ _ hon =>
    have hmem := List.mem_map_of_mem (f := fun k : JoinPair ↦
      ((⟨j.name, k.referenced⟩, ⟨j.parentName, k.localColumn⟩) : ColumnRef × ColumnRef)) hk
    rw [Uses, htable, hon]
    exact iff_of_true hmem (.inl rfl)
  | linked table keys rest link htable hkeys hlink hon =>
    simp only [Uses, htable, hlink, hon, hkeys, List.head?_cons, Option.some.injEq, reduceCtorEq,
      false_or, List.mem_singleton, Prod.mk.injEq, ColumnRef.mk.injEq, true_and, exists_eq_left',
      and_true]
    constructor
    · rintro ⟨hlocal, hreferenced⟩
      obtain ⟨_, _⟩ := k
      obtain rfl : keys.localColumn = _ := hlocal
      obtain rfl : _ = keys.referenced := hreferenced
      rfl
    · rintro rfl
      exact ⟨rfl, rfl⟩

theorem Connects.mem_equated (h : j.Connects r) : c ∈ j.equated ↔
    (∃ k ∈ r.joinColumns, j.Uses r k ∧
      (c = ⟨j.name, k.referenced⟩ ∨ c = ⟨j.parentName, k.localColumn⟩)) ∨
    ∃ table l, r.joinTable = some table ∧ j.link = some l ∧
      (c = ⟨l.name, table.sourceColumn⟩ ∨ c = ⟨l.name, table.targetColumn⟩) := by
  have huses : ∀ k ∈ r.joinColumns, (j.Uses r k ↔ _) := fun k hk ↦ h.uses_iff hk
  cases h with
  | direct htable _ hlink hon =>
    simp only [htable, true_or, iff_true] at huses
    simp only [equated, hlink, hon, htable, Option.toList_none, List.flatMap_nil, List.append_nil,
      List.mem_flatMap, List.mem_map, exists_exists_and_eq_and, List.mem_cons, List.not_mem_nil,
      or_false, reduceCtorEq, false_and, exists_false]
    exact exists_congr fun k ↦ and_congr_right fun hk ↦ by simp [huses k hk]
  | linked table keys rest link htable hkeys hlink hon =>
    simp only [htable, hkeys, List.head?_cons, reduceCtorEq, false_or, Option.some.injEq] at huses
    simp only [equated, hlink, hon, htable, hkeys, Option.toList_some, List.flatMap_cons,
      List.flatMap_nil, List.append_nil, List.mem_append, List.mem_cons, List.not_mem_nil, or_false,
      Option.some.injEq]
    constructor
    · rintro ((rfl | rfl) | rfl | rfl)
      · exact .inl ⟨keys, .inl rfl, (huses keys List.mem_cons_self).2 rfl, .inl rfl⟩
      · exact .inr ⟨table, _, rfl, rfl, .inr rfl⟩
      · exact .inr ⟨table, _, rfl, rfl, .inl rfl⟩
      · exact .inl ⟨keys, .inl rfl, (huses keys List.mem_cons_self).2 rfl, .inr rfl⟩
    · rintro (⟨k, hk, hused, hc⟩ | ⟨_, _, rfl, rfl, hc⟩)
      · obtain rfl := (huses k (List.mem_cons.2 hk)).1 hused
        exact hc.elim (fun h ↦ .inl (.inl h)) fun h ↦ .inr (.inr h)
      · exact hc.elim (fun h ↦ .inr (.inl h)) fun h ↦ .inl (.inr h)

end Join

namespace Plan

variable {s : Schema} {root e e' : Entity} {o : QueryOptions} {p : Plan} {t : AliasTable}
  {j : Join} {name : String}

/-- A table stands for the entity that the path of its role leads to, and a table of pairs for
none. -/
theorem Compiled.standsFor_iff (h : Compiled s root o p t) : p.StandsFor s root name e ↔
    ∃ q, p.roleOf name = .ofPath? q ∧ ∀ column, s.ownerOf root ⟨q, column⟩ = .ok e := by
  constructor
  · rintro (⟨rfl, rfl⟩ | ⟨j, hj, rfl, he⟩)
    · exact ⟨none, p.roleOf_rootName, fun _ ↦ rfl⟩
    · exact ⟨some j.path, roleOf_name h.distinct hj, fun _ ↦ he⟩
  · rintro ⟨q, hq, he⟩
    have hmem : (name, Role.ofPath? q) ∈ p.roles := by
      rw [roleOf] at hq
      cases hget : p.roles.get? name with
      | none => cases q <;> simp [hget, Role.ofPath?] at hq
      | some r =>
        rw [hget, Option.getD_some] at hq
        exact hq ▸ Keyed.mem_of_get? hget
    rw [roles, List.mem_cons, Prod.mk.injEq, List.mem_flatMap] at hmem
    rcases hmem with ⟨rfl, hroot⟩ | ⟨j, hj, hmem⟩
    · cases q with
      | none => exact .inl ⟨rfl, (Except.ok.inj (he "")).symm⟩
      | some q => simp [Role.ofPath?] at hroot
    · rw [List.mem_cons, Prod.mk.injEq, List.mem_map] at hmem
      cases q with
      | none => simp [Role.ofPath?] at hmem
      | some q =>
        simp only [Role.ofPath?, Role.path.injEq, Prod.mk.injEq, reduceCtorEq, and_false,
          exists_false, or_false] at hmem
        obtain ⟨rfl, rfl⟩ := hmem
        exact .inr ⟨j, hj, rfl, he ""⟩

theorem Compiled.standsFor_unique (h : Compiled s root o p t) (he : p.StandsFor s root name e)
    (he' : p.StandsFor s root name e') : e = e' := by
  obtain ⟨q, hq, howner⟩ := h.standsFor_iff.1 he
  obtain ⟨q', hq', hother⟩ := h.standsFor_iff.1 he'
  obtain rfl := Role.ofPath?_injective (hq.symm.trans hq')
  exact Except.ok.inj ((howner "").symm.trans (hother ""))

theorem Compiled.not_standsFor_link (h : Compiled s root o p t) (hj : j ∈ p.joins) {l : Link}
    (hl : j.link = some l) : ¬ p.StandsFor s root l.name e := by
  intro he
  obtain ⟨q, hq, -⟩ := h.standsFor_iff.1 he
  rw [roleOf_link h.distinct hj hl] at hq
  cases q <;> simp [Role.ofPath?] at hq

/-- A join goes along a relation of the entity that its parent's table stands for. -/
theorem Compiled.exists_hop (h : Compiled s root o p t) (hj : j ∈ p.joins) : ∃ e r target,
    p.StandsFor s root j.parentName e ∧ p.StandsFor s root j.name target ∧
      e.relation? j.path.leaf = some r ∧ s.entity? r.target = some target ∧ j.Connects r := by
  obtain ⟨u, u', hops, hop, hstep⟩ := h.step hj
  obtain ⟨before, last, rfl, howner, hrelation, htarget⟩ := Schema.resolvePath_last hstep.resolves
  obtain rfl : last = hop := by simpa using hstep.last
  exact ⟨last.parent, last.relation, last.target,
    h.standsFor_iff.2 ⟨_, h.roleOf_parentName hj, howner⟩,
    .inr ⟨j, hj, rfl, hstep.targetOf⟩, hrelation, htarget, hstep.connects⟩

/-- Of the columns that a join equates, every one whose table stands for an entity is a physical
column of it. -/
def EquatesDeclared (p : Plan) (s : Schema) (root : Entity) (j : Join) : Prop :=
  ∀ c ∈ j.equated, ∀ e, p.StandsFor s root c.table e → e.hasColumn c.column

theorem Compiled.equatesDeclared_iff (h : Compiled s root o p t) (hj : j ∈ p.joins) {r : Relation}
    {target : Entity} (he : p.StandsFor s root j.parentName e)
    (htarget : p.StandsFor s root j.name target) (hr : j.Connects r) :
    p.EquatesDeclared s root j ↔ ∀ k ∈ r.joinColumns, j.Uses r k →
      e.hasColumn k.localColumn ∧ target.hasColumn k.referenced := by
  constructor
  · intro hdeclared k hk hused
    have hlocal : ⟨j.parentName, k.localColumn⟩ ∈ j.equated :=
      hr.mem_equated.2 (.inl ⟨k, hk, hused, .inr rfl⟩)
    have hreferenced : ⟨j.name, k.referenced⟩ ∈ j.equated :=
      hr.mem_equated.2 (.inl ⟨k, hk, hused, .inl rfl⟩)
    exact ⟨hdeclared _ hlocal e he, hdeclared _ hreferenced target htarget⟩
  · intro hpairs c hc e' he'
    rcases hr.mem_equated.1 hc with ⟨k, hk, hused, rfl | rfl⟩ | ⟨table, l, -, hl, rfl | rfl⟩
    · obtain rfl := h.standsFor_unique htarget he'
      exact (hpairs k hk hused).2
    · obtain rfl := h.standsFor_unique he he'
      exact (hpairs k hk hused).1
    · exact absurd he' (h.not_standsFor_link hj hl)
    · exact absurd he' (h.not_standsFor_link hj hl)

end Plan

namespace Schema

/-- Both columns of every pair of the relation are there. -/
def Declares (s : Schema) (e : Entity) (r : Relation) : Prop :=
  ∃ target, s.entity? r.target = some target ∧ r.IsDeclared e target

def DeclaresJoins (s : Schema) : Prop := ∀ e, s.Has e → ∀ r ∈ e.relations, s.Declares e r

theorem IsSound.declaresJoins_iff {s : Schema} (h : s.IsSound) : s.DeclaresJoins ↔
    ∀ e, s.Has e → ∀ r ∈ e.relations, r.joinTable.isSome → s.Declares e r := by
  refine ⟨fun hall e he r hr _ ↦ hall e he r hr, fun htables e he r hr ↦ ?_⟩
  cases htable : r.joinTable with
  | none =>
    obtain ⟨target, hsound⟩ := h.relations e he r hr
    exact ⟨target, hsound.leads, hsound.declared htable⟩
  | some table => exact htables e he r hr (by simp [htable])

/-- A schema that passes its check declares the pairs of all relations without a table, and so do
the joins along them. Those of a relation by way of a table are not looked at: a join along it
equates columns that are there exactly if the relation declares its first pair. -/
theorem equatesDeclared_iff_of_check (s : Schema) : (s.check = .ok () ↔ s.IsSound) ∧
    (s.check = .ok () → (s.DeclaresJoins ↔
        ∀ e, s.Has e → ∀ r ∈ e.relations, r.joinTable.isSome → s.Declares e r) ∧
      ∀ name root o p, s.requireEntity name = .ok root → Plan.compile s name o = .ok p →
        ∀ j ∈ p.joins, ∃ e r target, s.Has e ∧ r ∈ e.relations ∧ s.IsSoundRelation e r target ∧
          p.StandsFor s root j.parentName e ∧ p.StandsFor s root j.name target ∧ j.Connects r ∧
          (p.EquatesDeclared s root j ↔ (r.joinTable.isSome → ∀ k ∈ r.joinColumns.head?,
            e.hasColumn k.localColumn ∧ target.hasColumn k.referenced))) := by
  refine ⟨check_iff_isSound, fun hcheck ↦ ?_⟩
  have hs := check_iff_isSound.1 hcheck
  refine ⟨hs.declaresJoins_iff, fun name root o p hroot h j hj ↦ ?_⟩
  obtain ⟨root', t, hroot', hc⟩ := Plan.compile_ok h
  obtain rfl : root' = root := Except.ok.inj (hroot'.symm.trans hroot)
  obtain ⟨e, r, target, he, htarget, hrelation, hleads, hconnects⟩ := hc.exists_hop hj
  have hmem : ∃ entity, (entity, root') ∈ s.entities :=
    ⟨name, Keyed.mem_of_get? (Plan.requireEntity_eq_ok.1 hroot)⟩
  obtain ⟨q, -, howner⟩ := hc.standsFor_iff.1 he
  have hhas : s.Has e := ownerOf_mem hmem (howner "")
  have hr : r ∈ e.relations := List.mem_of_find?_eq_some hrelation
  obtain ⟨target', hsound⟩ := hs.relations e hhas r hr
  obtain rfl : target = target' := Option.some.inj (hleads.symm.trans hsound.leads)
  refine ⟨e, r, target, hhas, hr, hsound, he, htarget, hconnects, ?_⟩
  rw [hc.equatesDeclared_iff hj he htarget hconnects]
  constructor
  · intro hpairs htable k hk
    have hkmem := List.mem_of_mem_head? hk
    exact hpairs k hkmem ((hconnects.uses_iff hkmem).2 (.inr hk))
  · intro hfirst k hk hused
    rcases (hconnects.uses_iff hk).1 hused with htable | hhead
    · exact hsound.declared htable k hk
    · cases htable : r.joinTable with
      | none => exact hsound.declared htable k hk
      | some table => exact hfirst (by simp [htable]) k hhead

theorem equatesDeclared_iff_of_check_nodes : Plan.nodes.check = .ok () ∧
    ∃ root p, Plan.nodes.requireEntity "Node" = .ok root ∧
      Plan.compile Plan.nodes "Node" Plan.nodeOptions = .ok p ∧
      p.joins.map (·.link.isSome) = [false, false, true] ∧
      ∀ j ∈ p.joins, p.EquatesDeclared Plan.nodes root j := by
  have he : Path.expand Plan.nodeOptions.relations = ["node_links", "node", "node.links"] :=
    Path.expand_eq_of_ascending (by decide +kernel)
  have hplan : (Plan.compile Plan.nodes "Node" Plan.nodeOptions).toOption.map (fun p ↦
      p.joins.map (·.link.isSome)) = some [false, false, true] := by
    simp only [Plan.compile, Plan.ofChecked, JoinPlanner.plan, he]
    decide +kernel
  obtain ⟨p, hp, hlinks⟩ := exists_ok_of_map hplan
  have hcheck : Plan.nodes.check = .ok () := by decide +kernel
  have hdeclared : Plan.nodes.entities.all fun entry ↦ entry.2.relations.all fun r ↦
      r.joinColumns.all fun k ↦ entry.2.hasColumn k.localColumn &&
        (Plan.nodes.entity? r.target).all (·.hasColumn k.referenced) := by decide +kernel
  refine ⟨hcheck, _, p, rfl, hp, hlinks, fun j hj ↦ ?_⟩
  obtain ⟨e, r, target, ⟨name, hhas⟩, hr, hsound, -, -, -, hiff⟩ :=
    ((equatesDeclared_iff_of_check Plan.nodes).2 hcheck).2 _ _ _ p rfl hp j hj
  refine hiff.2 fun _ k hk ↦ ?_
  have hk := List.all_eq_true.1 (List.all_eq_true.1 (List.all_eq_true.1 hdeclared _ hhas) r hr) k
    (List.mem_of_mem_head? hk)
  simpa [hsound.leads] using hk

def taggedPayments : Schema :=
  .ofEntities [
    { name := "Payment", table := "payments", primaryKey := ["id"]
      columns := [⟨"id", false⟩, ⟨"amount", false⟩]
      relations := [⟨"tags", "Tag", .manyToMany, [⟨"uid", "id"⟩],
        some ⟨"payment_tags", "paymentId", "tagId"⟩, none⟩]
      softDelete := none },
    { name := "Tag", table := "tags", primaryKey := ["id"]
      columns := [⟨"id", false⟩, ⟨"label", false⟩], relations := [], softDelete := none }]

/-- The check lets a relation pass whose pair is not there, and its join equates the missing column
of the payment. -/
theorem equated_of_missing_column : taggedPayments.check = .ok () ∧
    ¬ taggedPayments.DeclaresJoins ∧
    ∃ root p, taggedPayments.requireEntity "Payment" = .ok root ∧
      Plan.compile taggedPayments "Payment" { relations := ["tags"] } = .ok p ∧
      ∃ j ∈ p.joins, ∃ c ∈ j.equated,
        p.StandsFor taggedPayments root c.table root ∧ root.hasColumn c.column = false := by
  have he : Path.expand ["tags"] = ["tags"] := Path.expand_eq_of_ascending (by decide +kernel)
  have hplan : (Plan.compile taggedPayments "Payment" { relations := ["tags"] }).toOption.map
      (fun p ↦ (p.rootName, p.joins.map Join.equated)) = some ("payment",
        [[⟨"tags", "id"⟩, ⟨"tags_link", "tagId"⟩, ⟨"tags_link", "paymentId"⟩,
          ⟨"payment", "uid"⟩]]) := by
    simp only [Plan.compile, Plan.ofChecked, JoinPlanner.plan, he]
    decide +kernel
  obtain ⟨p, hp, hv⟩ := exists_ok_of_map hplan
  obtain ⟨hname, hequated⟩ := Prod.mk.inj hv
  refine ⟨by decide +kernel, fun hdeclares ↦ ?_, _, p, rfl, hp, ?_⟩
  · have hlocal : ∀ entry ∈ taggedPayments.entities, ∀ r ∈ entry.2.relations,
        ∀ k ∈ r.joinColumns, entry.2.hasColumn k.localColumn := fun entry hentry r hr k hk ↦ by
      obtain ⟨target, -, hdeclared⟩ := hdeclares entry.2 ⟨entry.1, hentry⟩ r hr
      exact (hdeclared k hk).1
    exact absurd hlocal (by decide +kernel)
  · have hmem : [⟨"tags", "id"⟩, ⟨"tags_link", "tagId"⟩, ⟨"tags_link", "paymentId"⟩,
        ⟨"payment", "uid"⟩] ∈ p.joins.map Join.equated := by simp [hequated]
    obtain ⟨j, hj, hcolumns⟩ := List.mem_map.1 hmem
    exact ⟨j, hj, ⟨"payment", "uid"⟩, by simp [hcolumns], .inl ⟨hname.symm, rfl⟩, by decide⟩

end Schema

namespace Plan

variable {s : Schema} {root : Entity} {o : QueryOptions} {p : Plan} {j : Join} {name : String}

/-- Every pair of a relation takes part in the join along it, by way of a table just the first. The
join is written with all of its conditions. -/
theorem uses_iff_of_compile (hroot : s.requireEntity name = .ok root)
    (h : compile s name o = .ok p) (hj : j ∈ p.joins) : ∃ e r target,
      p.StandsFor s root j.parentName e ∧ p.StandsFor s root j.name target ∧
      e.relation? j.path.leaf = some r ∧ s.entity? r.target = some target ∧ r.joinColumns ≠ [] ∧
      (∀ k ∈ r.joinColumns,
        j.Uses r k ↔ r.joinTable = none ∨ r.joinColumns.head? = some k) ∧
      Draft.join j = j.sources.flatMap Draft.joined := by
  obtain ⟨root', t, hroot', hc⟩ := compile_ok h
  obtain rfl : root' = root := Except.ok.inj (hroot'.symm.trans hroot)
  obtain ⟨e, r, target, he, htarget, hrelation, hleads, hconnects⟩ := hc.exists_hop hj
  refine ⟨e, r, target, he, htarget, hrelation, hleads, ?_, fun k hk ↦ hconnects.uses_iff hk,
    Draft.join_eq (hc.on_ne_nil j hj)⟩
  cases hconnects with
  | direct _ hkeys _ _ => exact hkeys
  | linked _ _ _ _ _ hkeys _ _ => simp [hkeys]

def tenantTags : Relation :=
  ⟨"tags", "Tag", .manyToMany, [⟨"id", "id"⟩, ⟨"tenantId", "tenantId"⟩],
    some ⟨"group_tags", "groupId", "tagId"⟩, none⟩

def tenantGroup : Entity :=
  { name := "Group", table := "groups", primaryKey := ["tenantId", "id"]
    columns := [⟨"tenantId", false⟩, ⟨"id", false⟩, ⟨"ownerId", false⟩]
    relations := [tenantTags,
      ⟨"owner", "Owner", .manyToOne, [⟨"ownerId", "id"⟩, ⟨"tenantId", "tenantId"⟩], none, none⟩]
    softDelete := none }

def tenants : Schema :=
  .ofEntities [tenantGroup,
    { name := "Owner", table := "owners", primaryKey := ["tenantId", "id"]
      columns := [⟨"tenantId", false⟩, ⟨"id", false⟩], relations := [], softDelete := none },
    { name := "Tag", table := "tags", primaryKey := ["tenantId", "id"]
      columns := [⟨"tenantId", false⟩, ⟨"id", false⟩], relations := [], softDelete := none }]

theorem uses_iff_of_compile_owner :
    ∃ p, compile tenants "Group" { relations := ["owner"] } = .ok p ∧
      ∃ j ∈ p.joins, ∃ r, tenantGroup.relation? "owner" = some r ∧ r.joinColumns.length = 2 ∧
        ∀ k ∈ r.joinColumns, j.Uses r k := by
  have he : Path.expand ["owner"] = ["owner"] := Path.expand_eq_of_ascending (by decide +kernel)
  have hplan : (compile tenants "Group" { relations := ["owner"] }).toOption.map (fun p ↦
      (p.rootName, p.joins.map fun j ↦ (j.path, j.name, j.parentName))) =
      some ("group", [("owner", "owner", "group")]) := by
    simp only [compile, ofChecked, JoinPlanner.plan, he]
    decide +kernel
  obtain ⟨p, hp, hv⟩ := exists_ok_of_map hplan
  obtain ⟨hname, hjoins⟩ := Prod.mk.inj hv
  obtain ⟨j, hj, hnames⟩ := List.map_eq_singleton_iff.1 hjoins
  simp only [Prod.mk.injEq] at hnames
  obtain ⟨hpath, hown, hparent⟩ := hnames
  have hmem : j ∈ p.joins := by simp [hj]
  obtain ⟨e, r, target, he, -, hrelation, -, -, huses, -⟩ := uses_iff_of_compile rfl hp hmem
  have hgroup : e = tenantGroup := by
    rcases he with ⟨-, rfl⟩ | ⟨i, hi, hi', -⟩
    · rfl
    · simp only [hj, List.mem_singleton] at hi
      simp [hi, hown, hparent] at hi'
  rw [hgroup, hpath] at hrelation
  obtain rfl := Option.some.inj hrelation
  exact ⟨p, hp, j, hmem, _, rfl, rfl, fun k hk ↦ (huses k hk).2 (.inl rfl)⟩

/-- The tags of a group are those of its id in the table, whatever their tenant. -/
theorem uses_first_of_tenantTags : tenants.check = .ok () ∧
    (∃ hops hop, tenants.resolvePath tenantGroup "tags" = .ok hops ∧ hops.getLast? = some hop ∧
      hop.relation = tenantTags) ∧
    ∃ p, compile tenants "Group" { relations := ["tags"] } = .ok p ∧
      ∃ j ∈ p.joins, j.path = "tags" ∧ ∃ k ∈ tenantTags.joinColumns, ¬ j.Uses tenantTags k := by
  have he : Path.expand ["tags"] = ["tags"] := Path.expand_eq_of_ascending (by decide +kernel)
  have hplan : (compile tenants "Group" { relations := ["tags"] }).toOption.map (fun p ↦
      p.joins.map fun j ↦ (j.path, j.link)) = some [("tags", some ⟨"group_tags", "tags_link",
        (⟨"tags_link", "groupId"⟩, ⟨"group", "id"⟩)⟩)] := by
    simp only [compile, ofChecked, JoinPlanner.plan, he]
    decide +kernel
  obtain ⟨p, hp, hjoins⟩ := exists_ok_of_map hplan
  obtain ⟨j, hj, hlinks⟩ := List.map_eq_singleton_iff.1 hjoins
  obtain ⟨hpath, hlink⟩ := Prod.mk.inj hlinks
  refine ⟨by decide +kernel, ?_, p, hp, j, by simp [hj], hpath, ⟨"tenantId", "tenantId"⟩,
    by decide, ?_⟩
  · have hops : (tenants.resolvePath tenantGroup "tags").toOption.map (fun hops ↦
        hops.getLast?.map (·.relation)) = some (some tenantTags) := by decide +kernel
    obtain ⟨hops, hresolved, hlast⟩ := exists_ok_of_map hops
    obtain ⟨hop, hhop, hrelation⟩ := Option.map_eq_some_iff.1 hlast
    exact ⟨hops, hop, hresolved, hhop, hrelation⟩
  · simp [Join.Uses, tenantTags, hlink]

end Plan

end Listing
