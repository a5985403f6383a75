import Listing.Proofs.Datum
import Listing.Proofs.Grouping
import Listing.Proofs.JsonText
import Listing.Proofs.Projections
import Listing.Proofs.Resolution
import Listing.Proofs.Shapes
import Listing.Proofs.Soundness

namespace Listing

namespace Schema

def KeysArePhysical (s : Schema) : Prop :=
  ∀ name e, (name, e) ∈ s.entities → ∀ c ∈ e.primaryKey, e.hasColumn c

variable {s : Schema} {root e : Entity}

theorem primaryKey_ne_nil (h : s.check = .ok ()) {name : String} (he : (name, e) ∈ s.entities) :
    e.primaryKey ≠ [] :=
  (check_iff_isSound.1 h).keys e ⟨name, he⟩

end Schema

namespace Shape

/-- Instances go by the given outputs: those whose texts differ there are built apart, and one that
has a value there is neither left out nor taken for nothing. -/
structure TellsApart (s : Shape) (outputs : List String) : Prop where
  key : s.key = outputs
  apart : ∀ rows, ∀ group ∈ (Groups.ofRows s.key true rows).toLists, ∀ r ∈ group, ∀ r' ∈ group,
    ∀ o ∈ outputs, Json.SameText (cell r o) (cell r' o)
  kept : ∀ rows, ∀ r ∈ rows, (∃ o ∈ outputs, (cell r o).isNull = false) →
    ∃ group ∈ (Groups.ofRows s.key true rows).toLists, r ∈ group
  present : ∀ r, (∃ o ∈ outputs, (cell r o).isNull = false) → s.isAbsent r = false

theorem tellsApart {s : Shape} (h : ∀ o ∈ s.key, o ∈ s.columns.map (·.1)) :
    s.TellsApart s.key := by
  refine ⟨rfl, ?_, ?_, ?_⟩
  · intro rows group hgroup r hr r' hr'
    rw [Groups.toLists_ofRows] at hgroup
    obtain ⟨k, -, rfl⟩ := List.mem_map.1 hgroup
    simp only [List.mem_filter, beq_iff_eq] at hr hr'
    have htexts := Json.render_list_inj (hr.2.trans hr'.2.symm)
    rw [Groups.keyValues, Groups.keyValues, List.forall₂_map_left_iff,
      List.forall₂_map_right_iff] at htexts
    exact List.forall₂_same.1 htexts
  · rintro rows r hr ⟨o, ho, hnull⟩
    rw [Groups.toLists_ofRows]
    have hgrouped : Groups.isGrouped s.key true r := by
      simp only [Groups.isGrouped, Groups.keyValues, Bool.true_and, Bool.not_eq_true',
        List.all_eq_false, List.mem_map]
      exact ⟨_, ⟨o, ho, rfl⟩, by simp [hnull]⟩
    have hmem := List.mem_filter.2 ⟨hr, hgrouped⟩
    refine ⟨_, List.mem_map.2 ⟨Groups.keyText s.key r, ?_, rfl⟩, ?_⟩
    · exact List.mem_eraseDups.2 (List.mem_map_of_mem hmem)
    · exact List.mem_filter.2 ⟨hmem, by simp⟩
  · rintro r ⟨o, ho, hnull⟩
    obtain ⟨column, hcolumn, rfl⟩ := List.mem_map.1 (h o ho)
    rw [isAbsent, Bool.and_eq_false_iff]
    refine .inr (List.all_eq_false.2 ⟨column, hcolumn, ?_⟩)
    simp [hnull]

end Shape

namespace Plan

variable {s : Schema} {root : Entity} {o : QueryOptions} {p : Plan} {t : AliasTable} {j : Join}

/-- A join that brings a column, or leads to one that does. -/
def HasContent (p : Plan) (j : Join) : Prop :=
  ∃ i ∈ p.joins, i.columns ≠ [] ∧ i.path.passes j.path

/-- Instances of the target of a join go by its key, all of which is selected. -/
structure Identifies (p : Plan) (j : Join) : Prop where
  columns : ∀ c ∈ j.primaryKey, c ∈ j.columns
  shape : ∃ s, (Shape.ofPlan p).at? j.path.segments = some s ∧
    s.TellsApart (j.primaryKey.map (Place.joined j).output)

theorem Compiled.isNested (h : Compiled s root o p t) : IsNested p.joins := by
  have hpaths : p.joins.map (·.path) = Path.expand o.relations := h.paths
  refine ⟨hpaths ▸ Path.expand_nodup _, fun before j after hsplit q hq ↦ ?_⟩
  rw [hsplit, List.map_append, List.map_cons] at hpaths
  exact Path.parent_mem_before hpaths.symm hq

theorem identifies_iff (hp : IsNested p.joins) (hj : j ∈ p.joins) (hne : j.primaryKey ≠ []) :
    p.Identifies j ↔ ∀ c ∈ j.primaryKey, c ∈ j.columns := by
  refine ⟨fun h ↦ h.columns, fun h ↦ ⟨h, ?_⟩⟩
  obtain ⟨s, hs, hdesc⟩ := (describes_ofPlan hp).at? hp hj
  obtain ⟨hcolumns, hkey, -⟩ := hdesc.own
  have hkey : s.key = j.primaryKey.map (Place.joined j).output := hkey.trans (Shape.keyOf_eq hne h)
  refine ⟨s, hs, hkey ▸ Shape.tellsApart fun o ho ↦ ?_⟩
  rw [hkey] at ho
  obtain ⟨c, hc, rfl⟩ := List.mem_map.1 ho
  rw [hcolumns]
  exact List.mem_map.2 ⟨_, List.mem_map_of_mem (h c hc), rfl⟩

/-- A join that brings anything is on the way to a selected field. -/
theorem Compiled.reaches (h : Compiled s root o p t) {projection : Projection}
    (hprojection : o.projection root = some projection) (hj : p.HasContent j) :
    o.Reaches j.path := by
  obtain ⟨i, hi, hcolumns, hpasses⟩ := hj
  obtain ⟨u, u', hops, hop, hstep⟩ := h.step hi
  have hbrings := hstep.brings
  rw [hprojection] at hbrings
  rcases QueryOptions.columnsOf_cases (s := s) hprojection i.path hop.target with
    ⟨hfield, -⟩ | ⟨-, hreached, -⟩ | ⟨-, hnone⟩
  · exact ⟨i.path, hfield, hpasses⟩
  · obtain ⟨q, hq, hpassed⟩ := hreached
    exact ⟨q, hq, Path.passes_trans hpassed hpasses⟩
  · rw [hnone] at hbrings
    exact absurd (congrArg Prod.snd hbrings) hcolumns

theorem Compiled.mem_columns (h : Compiled s root o p t) (hcontent : p.HasContent j)
    {u u' : AliasTable} {hops : List Schema.Hop} {hop : Schema.Hop}
    (hstep : (o.planner s root).Step (o.projection root) u j u' hops hop) {c : String}
    (hc : c ∈ hop.target.primaryKey) (hphysical : hop.target.hasColumn c) :
    c ∈ j.columns ↔ ¬ o.Hides hop.target j.path c := by
  have hbrings := hstep.brings
  cases hprojection : o.projection root with
  | none =>
    rw [hprojection] at hbrings
    have hcolumns : j.columns = hop.target.physicalColumns := congrArg Prod.snd hbrings
    rw [hcolumns, Entity.mem_physicalColumns]
    refine iff_of_true hphysical fun hhides ↦ ?_
    have hselect : o.select = none := Option.map_eq_none_iff.1 hprojection
    simp [QueryOptions.Hides, hselect] at hhides
  | some projection =>
    rw [hprojection] at hbrings
    rcases QueryOptions.columnsOf_cases (s := s) hprojection j.path hop.target with
      ⟨hfield, columns, -, hended⟩ | ⟨hfield, -, hpassed⟩ | ⟨hreached, -⟩
    · rw [hended] at hbrings
      rw [(Prod.mk.inj hbrings).2]
      exact iff_of_true (by simp [hc]) fun hhides ↦ hhides.2.1 hfield
    · rw [hpassed] at hbrings
      rw [(Prod.mk.inj hbrings).2, List.mem_filter, Entity.mem_physicalColumns,
        ← QueryOptions.mem_excludedKeys (s := s) hprojection hfield]
      simp [hphysical]
    · exact absurd (h.reaches hprojection hcontent) hreached

/-- A join that matters identifies the instances of its target unless a column of their key is
hidden. -/
theorem identifies_iff_of_compile {name : String} (hroot : s.requireEntity name = .ok root)
    (h : compile s name o = .ok p) (hs : s.check = .ok ()) (hkeys : s.KeysArePhysical)
    (hj : j ∈ p.joins) (hcontent : p.HasContent j) :
    ∃ target, s.targetOf root j.path = .ok target ∧ j.primaryKey = target.primaryKey ∧
      (p.Identifies j ↔ ∀ c ∈ target.primaryKey, ¬ o.Hides target j.path c) := by
  obtain ⟨root', t, hroot', hc⟩ := compile_ok h
  obtain rfl : root' = root := Except.ok.inj (hroot'.symm.trans hroot)
  obtain ⟨u, u', hops, hop, hstep⟩ := hc.step hj
  have htarget : s.targetOf root' j.path = .ok hop.target :=
    bind_eq_ok.2 ⟨hops, hstep.resolves, by rw [hstep.last]; rfl⟩
  obtain ⟨entity, hentity⟩ :=
    Schema.resolvePath_target_mem hstep.resolves hop (List.mem_of_getLast? hstep.last)
  have hne : j.primaryKey ≠ [] := hstep.primaryKey ▸ Schema.primaryKey_ne_nil hs hentity
  refine ⟨hop.target, htarget, hstep.primaryKey, ?_⟩
  rw [identifies_iff hc.isNested hj hne, hstep.primaryKey]
  exact forall₂_congr fun c hkey ↦
    hc.mem_columns hcontent hstep hkey (hkeys entity hop.target hentity c hkey)

def groups : Schema :=
  .ofEntities [
    { name := "Group", table := "groups", primaryKey := ["id"]
      columns := [⟨"id", false⟩, ⟨"name", false⟩]
      relations := [⟨"memberships", "Membership", .oneToMany, [⟨"id", "groupId"⟩], none, none⟩]
      softDelete := none },
    { name := "Membership", table := "memberships", primaryKey := ["groupId", "personId"]
      columns := [⟨"groupId", false⟩, ⟨"personId", false⟩, ⟨"role", false⟩]
      relations := [⟨"person", "Person", .manyToOne, [⟨"personId", "id"⟩], none, none⟩]
      softDelete := none },
    { name := "Person", table := "persons", primaryKey := ["id"]
      columns := [⟨"id", false⟩, ⟨"name", false⟩], relations := [], softDelete := none }]

def memberNames : QueryOptions :=
  { relations := ["memberships.person"], select := some ["memberships.person.name"] }

theorem expand_memberNames :
    Path.expand memberNames.relations = ["memberships", "memberships.person"] :=
  Path.expand_eq_of_ascending (by decide +kernel)

theorem groups_keysArePhysical : groups.KeysArePhysical := by
  have h : groups.entities.all fun e ↦ e.2.primaryKey.all e.2.hasColumn := by decide
  intro name e he c hc
  exact List.all_eq_true.1 (List.all_eq_true.1 h _ he) c hc

theorem identifies_iff_of_compile_memberNames : ∃ p, compile groups "Group" memberNames = .ok p ∧
    ∃ j ∈ p.joins, j.path = "memberships.person" ∧ p.Identifies j := by
  have hjoins : (compile groups "Group" memberNames).toOption.map (fun p ↦
      p.joins.map fun j ↦ (j.path, j.columns)) =
      some [("memberships", ["groupId", "role"]), ("memberships.person", ["name", "id"])] := by
    simp only [compile, ofChecked, JoinPlanner.plan, expand_memberNames]
    decide +kernel
  obtain ⟨p, hp, hv⟩ := exists_ok_of_map hjoins
  have hmem : ("memberships.person", ["name", "id"]) ∈ p.joins.map fun j ↦ (j.path, j.columns) := by
    simp [hv]
  obtain ⟨j, hj, he⟩ := List.mem_map.1 hmem
  obtain ⟨hpath, hcolumns⟩ := Prod.mk.inj he
  have hcontent : p.HasContent j := ⟨j, hj, by simp [hcolumns], Path.passes_refl j.path⟩
  obtain ⟨target, htarget, -, hiff⟩ := identifies_iff_of_compile (by rfl) hp (by rfl)
    groups_keysArePhysical hj hcontent
  refine ⟨p, hp, j, hj, hpath, hiff.2 fun c _ hhides ↦ hhides.2.1 ?_⟩
  rw [hpath]
  decide

def memberRows : List Row :=
  [[("id", .int 1), ("memberships.groupId", .int 1), ("memberships.personId", .int 7),
    ("memberships.role", .text "chair"), ("memberships.person.name", .text "Ana"),
    ("memberships.person.id", .int 7)],
   [("id", .int 1), ("memberships.groupId", .int 1), ("memberships.personId", .int 8),
    ("memberships.role", .text "clerk"), ("memberships.person.name", .text "Bo"),
    ("memberships.person.id", .int 8)]]

/-- The person belongs to the key of a membership and is hidden, so that one of the memberships is
lost. -/
theorem records_of_hidden_key : groups.check = .ok () ∧ groups.KeysArePhysical ∧
    ∃ p, compile groups "Group" memberNames = .ok p ∧
      (∃ j ∈ p.joins, p.HasContent j ∧ ∃ c ∈ j.primaryKey, c ∉ j.columns) ∧
      p.records memberRows = [.table [("id", .int 1), ("memberships", .list [.table
        [("groupId", .int 1), ("role", .text "chair"),
          ("person", .table [("name", .text "Ana"), ("id", .int 7)])]])]] := by
  refine ⟨rfl, groups_keysArePhysical, ?_⟩
  have hplan : (compile groups "Group" memberNames).toOption.map (fun p ↦
      (p.joins.map fun j ↦ (j.primaryKey, j.columns), p.records memberRows)) =
      some ([(["groupId", "personId"], ["groupId", "role"]), (["id"], ["name", "id"])],
        [.table [("id", .int 1), ("memberships", .list [.table
          [("groupId", .int 1), ("role", .text "chair"),
            ("person", .table [("name", .text "Ana"), ("id", .int 7)])]])]]) := by
    simp only [compile, ofChecked, JoinPlanner.plan, expand_memberNames]
    decide +kernel
  obtain ⟨p, hp, hv⟩ := exists_ok_of_map hplan
  obtain ⟨hjoins, hrecords⟩ := Prod.mk.inj hv
  refine ⟨p, hp, ?_, hrecords⟩
  have hmem : (["groupId", "personId"], ["groupId", "role"]) ∈
      p.joins.map fun j ↦ (j.primaryKey, j.columns) := by
    simp [hjoins]
  obtain ⟨j, hj, he⟩ := List.mem_map.1 hmem
  obtain ⟨hkey, hcolumns⟩ := Prod.mk.inj he
  refine ⟨j, hj, ⟨j, hj, by simp [hcolumns], Path.passes_refl j.path⟩, "personId", ?_, ?_⟩
  · simp [hkey]
  · simp [hcolumns]

end Plan

end Listing
