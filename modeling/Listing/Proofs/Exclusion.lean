import Listing.Proofs.Projections

namespace Listing

theorem Entity.mem_foreignKeys_of_relation {e : Entity} {name c : String} {r : Relation}
    (h : e.relation? name = some r) (hc : c ∈ r.foreignKeys) : c ∈ e.foreignKeys :=
  List.mem_eraseDups.2 (List.mem_flatMap.2 ⟨r, List.mem_of_find?_eq_some h, hc⟩)

namespace QueryOptions

/-- The same options under another policy. -/
def under (o : QueryOptions) (policy : ForeignKeyExclusion) : QueryOptions :=
  { o with foreignKeyExclusion := policy }

def rootSelect (o : QueryOptions) (root : Entity) (t : AliasTable) : List SelectColumn :=
  ((o.planner ⟨[]⟩ root).rootColumns (o.projection root)).map (SelectColumn.ofRoot t.root)

/-- Whether a path is on the way to a selected field and no such field ends there. Without a
selection there are no such paths. -/
def Passes (o : QueryOptions) (p : Path) : Prop := p ∉ o.fieldPaths ∧ o.Reaches p

/-- A foreign key by which a path goes on to a selected field. -/
def GoesOnBy (o : QueryOptions) (e : Entity) (p : Path) (column : String) : Prop :=
  ∃ child r, o.Reaches child ∧ child.parent? = some p ∧ e.relation? child.leaf = some r ∧
    column ∈ r.foreignKeys

variable {o : QueryOptions} {s : Schema} {root e : Entity} {p : Path}

theorem columnsOf_of_not_passes (h : ¬ o.Passes p) (policy policy' : ForeignKeyExclusion) :
    ((o.under policy).planner s root).columnsOf (o.projection root) p e =
      ((o.under policy').planner s root).columnsOf (o.projection root) p e := by
  cases hprojection : o.projection root with
  | none => rfl
  | some projection =>
    cases htarget : projection.targets.get? p with
    | some columns => simp only [JoinPlanner.columnsOf, htarget]
    | none =>
      have hfield : p ∉ o.fieldPaths := by
        rw [← mem_targets hprojection, ← Keyed.get?_isSome, htarget]
        simp
      have hreached : ¬ projection.reached.contains p := fun hmem ↦
        h ⟨hfield, (mem_reached hprojection).1 (by simpa using hmem)⟩
      simp only [JoinPlanner.columnsOf, htarget, if_neg hreached]

theorem columnsOf_of_passes (h : o.Passes p) (s : Schema) (root e : Entity) :
    ∃ projection, o.projection root = some projection ∧
      ∀ policy, ((o.under policy).planner s root).columnsOf (o.projection root) p e =
        (.projected, e.physicalColumns.filter fun c ↦
          !(((o.under policy).planner s root).excludedKeys e p projection.reached).contains c) := by
  cases hprojection : o.projection root with
  | none =>
    have hselect : o.select = none := Option.map_eq_none_iff.1 hprojection
    obtain ⟨q, hq, -⟩ := h.2
    simp [fieldPaths, hselect] at hq
  | some projection =>
    refine ⟨projection, rfl, fun policy ↦ ?_⟩
    rcases columnsOf_cases (o := o.under policy) (s := s) hprojection p e with
      ⟨hfield, -⟩ | ⟨-, -, heq⟩ | ⟨hreached, -⟩
    · exact absurd hfield h.1
    · exact heq
    · exact absurd h.2 hreached

def loan : Entity :=
  { name := "Loan", table := "loans", primaryKey := ["id"]
    columns := [⟨"id", false⟩, ⟨"readerId", false⟩, ⟨"bookId", false⟩]
    relations := [⟨"reader", "Reader", .manyToOne, [⟨"readerId", "id"⟩], none, none⟩,
      ⟨"book", "Book", .manyToOne, [⟨"bookId", "id"⟩], none, none⟩]
    softDelete := none }

def loanTitles : QueryOptions := { select := some ["loans.book.title"] }

example : [.nextHop, .allForeignKeys].map (fun policy ↦ (((loanTitles.under policy).planner ⟨[]⟩
    loan).columnsOf (loanTitles.projection loan) "loans" loan).2) =
      [["id", "readerId"], ["id"]] := by
  decide +kernel

theorem mem_excludedKeys_nextHop {projection : Projection} (h : o.projection root = some projection)
    (hp : o.Passes p) {column : String} :
    column ∈ ((o.under .nextHop).planner s root).excludedKeys e p projection.reached ↔
      o.GoesOnBy e p column := by
  rw [mem_excludedKeys (o := o.under .nextHop) h hp.1]
  refine ⟨fun hhides ↦ hhides.2.2, fun hkey ↦ ⟨?_, hp.1, hkey⟩⟩
  obtain ⟨fields, hselect, -⟩ := Option.map_eq_some_iff.1 h
  exact Option.isSome_iff_exists.2 ⟨fields, hselect⟩

theorem GoesOnBy.mem_foreignKeys {column : String} (h : o.GoesOnBy e p column) :
    column ∈ e.foreignKeys := by
  obtain ⟨child, r, -, -, hr, hcolumn⟩ := h
  exact Entity.mem_foreignKeys_of_relation hr hcolumn

/-- What leads on is a foreign key too, so that one filter after the other leaves out no more. -/
theorem filter_excludedKeys {projection : Projection} (h : o.projection root = some projection)
    (hp : o.Passes p) : (e.physicalColumns.filter fun c ↦
      !(((o.under .allForeignKeys).planner s root).excludedKeys e p projection.reached).contains c) =
    (e.physicalColumns.filter fun c ↦
      !(((o.under .nextHop).planner s root).excludedKeys e p projection.reached).contains c).filter
        (!e.foreignKeys.contains ·) := by
  rw [List.filter_filter]
  refine List.filter_congr fun c _ ↦ ?_
  have hall : ((o.under .allForeignKeys).planner s root).excludedKeys e p projection.reached =
      e.foreignKeys := rfl
  rw [hall, Bool.eq_iff_iff]
  simp only [Bool.and_eq_true, Bool.not_eq_true', List.contains_eq_mem, decide_eq_false_iff_not,
    mem_excludedKeys_nextHop h hp]
  constructor
  · intro hc
    exact ⟨hc, fun hkey ↦ hc hkey.mem_foreignKeys⟩
  · exact fun hc ↦ hc.1

end QueryOptions

namespace Join

/-- Two joins on one path, the second without the foreign keys that only the stricter policy leaves
out. -/
structure Loses (j j' : Join) (o : QueryOptions) (target : Entity) : Prop where
  others : { j with columns := [] } = { j' with columns := [] }
  unpassed : ¬ o.Passes j.path → j'.columns = j.columns
  passed : o.Passes j.path → j'.columns = j.columns.filter (!target.foreignKeys.contains ·)
  inOrder : o.Passes j.path → j.columns.Sublist target.physicalColumns
  mem : o.Passes j.path → ∀ c, c ∈ j.columns ↔ target.hasColumn c ∧ ¬ o.GoesOnBy target j.path c

open QueryOptions in
theorem loses_of_columnsOf {j j' : Join} {o : QueryOptions} {s : Schema} {root target : Entity}
    (hothers : { j with mode := .full, columns := [] } = { j' with mode := .full, columns := [] })
    (h : (j.mode, j.columns) =
      ((o.under .nextHop).planner s root).columnsOf (o.projection root) j.path target)
    (h' : (j'.mode, j'.columns) =
      ((o.under .allForeignKeys).planner s root).columnsOf (o.projection root) j.path target) :
    j.Loses j' o target := by
  have hof (hmode : j.mode = j'.mode) : { j with columns := [] } = { j' with columns := [] } := by
    have hrest := congrArg (fun i : Join ↦ { i with mode := j.mode }) hothers
    rw [hmode] at hrest ⊢
    exact hrest
  by_cases hpasses : o.Passes j.path
  · obtain ⟨projection, hprojection, hcolumns⟩ := columnsOf_of_passes hpasses s root target
    rw [hcolumns] at h h'
    obtain ⟨hmode, hj⟩ := Prod.mk.inj h
    obtain ⟨hmode', hj'⟩ := Prod.mk.inj h'
    refine ⟨hof (hmode.trans hmode'.symm), fun h ↦ absurd hpasses h, fun _ ↦ ?_, fun _ ↦ ?_,
      fun _ c ↦ ?_⟩
    · rw [hj', hj, filter_excludedKeys hprojection hpasses]
    · rw [hj]
      exact List.filter_sublist
    · rw [hj, List.mem_filter, Entity.mem_physicalColumns,
        ← mem_excludedKeys_nextHop (s := s) hprojection hpasses]
      simp
  · rw [columnsOf_of_not_passes hpasses _ .nextHop, ← h] at h'
    obtain ⟨hmode, hcolumns⟩ := Prod.mk.inj h'
    exact ⟨hof hmode.symm, fun _ ↦ hcolumns, fun h ↦ absurd h hpasses, fun h ↦ absurd h hpasses,
      fun h ↦ absurd h hpasses⟩

def LosesKeys (s : Schema) (root : Entity) (o : QueryOptions) (j j' : Join) : Prop :=
  ∃ target, s.targetOf root j.path = .ok target ∧ j.Loses j' o target

def selects (j : Join) : List SelectColumn := j.columns.map (SelectColumn.ofJoin j.path j.name)

end Join

namespace JoinPlanner

variable (o : QueryOptions) (s : Schema) (root : Entity)

theorem sameOutcome_joinOf (p : Path) (t : AliasTable) :
    SameOutcome (fun x y ↦ x.2 = y.2 ∧ x.1.LosesKeys s root o y.1)
      (((o.under .nextHop).planner s root).joinOf (o.projection root) p t)
      (((o.under .allForeignKeys).planner s root).joinOf (o.projection root) p t) := by
  refine .bind_self fun hops hhops ↦ ?_
  cases hlast : hops.getLast? with
  | none => exact .error _
  | some hop =>
    refine .bind_self fun ((on, link), u) _ ↦ ?_
    have htarget : s.targetOf root p = .ok hop.target :=
      bind_eq_ok.2 ⟨hops, hhops, by rw [hlast]; rfl⟩
    exact .ok ⟨rfl, hop.target, htarget, Join.loses_of_columnsOf rfl rfl rfl⟩

theorem sameOutcome_joinsOf (ps : List Path) (t : AliasTable) :
    SameOutcome (fun x y ↦ x.2 = y.2 ∧ List.Forall₂ (Join.LosesKeys s root o) x.1 y.1)
      (((o.under .nextHop).planner s root).joinsOf (o.projection root) ps t)
      (((o.under .allForeignKeys).planner s root).joinsOf (o.projection root) ps t) := by
  induction ps generalizing t with
  | nil => exact .ok ⟨rfl, .nil⟩
  | cons p ps ih =>
    refine .bind (sameOutcome_joinOf o s root p t) ?_
    rintro ⟨j, u⟩ ⟨j', -⟩ ⟨rfl, hj⟩
    refine .bind (ih u) ?_
    rintro ⟨joins, u'⟩ ⟨joins', -⟩ ⟨rfl, hjoins⟩
    exact .ok ⟨rfl, .cons hj hjoins⟩

theorem sameOutcome_plan (t : AliasTable) :
    SameOutcome (fun x y ↦ x.2 = y.2 ∧
        List.Forall₂ (Join.LosesKeys s root o) x.1.joins y.1.joins ∧
        x.1.select = o.rootSelect root t ++ x.1.joins.flatMap Join.selects ∧
        y.1.select = o.rootSelect root t ++ y.1.joins.flatMap Join.selects)
      (((o.under .nextHop).planner s root).plan o.relations o.select o.sortBy t)
      (((o.under .allForeignKeys).planner s root).plan o.relations o.select o.sortBy t) := by
  refine .bind (sameOutcome_joinsOf o s root (Path.expand o.relations) t) ?_
  rintro ⟨joins, u⟩ ⟨joins', -⟩ ⟨rfl, hjoins⟩
  exact .ok ⟨rfl, hjoins, rfl, rfl⟩

end JoinPlanner

namespace Plan

/-- Plans that differ in foreign keys of joins on the way to selected fields, and in nothing else:
of the joins the first brings what the second does and perhaps more of these keys, and both select
the same columns of the root and what their joins bring. -/
structure LosesKeys (s : Schema) (root : Entity) (o : QueryOptions) (p p' : Plan) : Prop where
  others : { p with joins := [], select := [] } = { p' with joins := [], select := [] }
  joins : List.Forall₂ (Join.LosesKeys s root o) p.joins p'.joins
  select : p.select = o.rootSelect root (.ofRoot root.name) ++ p.joins.flatMap Join.selects
  select' : p'.select = o.rootSelect root (.ofRoot root.name) ++ p'.joins.flatMap Join.selects

theorem sameOutcome_ofChecked (o : QueryOptions) (s : Schema) (root : Entity) :
    SameOutcome (LosesKeys s root o) (ofChecked s root (o.under .nextHop))
      (ofChecked s root (o.under .allForeignKeys)) := by
  refine .bind (JoinPlanner.sameOutcome_plan o s root _) ?_
  rintro ⟨joined, t⟩ ⟨joined', -⟩ ⟨rfl, hjoins, hselect, hselect'⟩
  exact .ok ⟨rfl, hjoins, hselect, hselect'⟩

/-- Under both policies options compile or fail with the same error, and the plans differ in the
foreign keys that the stricter policy leaves out. -/
theorem sameOutcome_compile (s : Schema) (name : String) (o : QueryOptions) :
    SameOutcome (fun p p' ↦ ∃ root, s.requireEntity name = .ok root ∧ p.LosesKeys s root o p')
      (compile s name (o.under .nextHop)) (compile s name (o.under .allForeignKeys)) := by
  refine .bind_self fun root hroot ↦ .bind_self fun _ _ ↦ ?_
  exact (sameOutcome_ofChecked o s root).mono fun _ _ h ↦ ⟨root, hroot, h⟩

end Plan

end Listing
