import Listing.Proofs.Compilation
import Listing.Proofs.Keyed

namespace Listing

namespace QueryOptions

/-- The paths that selected fields end at, the sort field among them. -/
def fieldPaths (o : QueryOptions) : List Path :=
  match o.select with
  | none => []
  | some fields => (fields ++ o.sortBy.toList).filterMap fun f ↦ (Field.ofText f).relation

/-- Whether some selected field passes through a path or ends there. -/
def Reaches (o : QueryOptions) (q : Path) : Prop := ∃ p ∈ o.fieldPaths, Path.passes p q

/-- A foreign key that does not come with a join on the way to a selected field. -/
def Hides (o : QueryOptions) (e : Entity) (p : Path) (column : String) : Prop :=
  o.select.isSome ∧ p ∉ o.fieldPaths ∧
    match o.foreignKeyExclusion with
    | .allForeignKeys => column ∈ e.foreignKeys
    | .nextHop => ∃ child r, o.Reaches child ∧ child.parent? = some p ∧
      e.relation? child.leaf = some r ∧ column ∈ r.foreignKeys

end QueryOptions

theorem Entity.mem_physicalColumns {e : Entity} {column : String} :
    column ∈ e.physicalColumns ↔ e.hasColumn column := by
  simp only [Entity.physicalColumns, List.mem_eraseDups, List.mem_map, List.mem_filter,
    Entity.hasColumn, List.any_eq_true, Bool.and_eq_true, beq_iff_eq]
  constructor
  · rintro ⟨c, ⟨hc, hphysical⟩, rfl⟩
    exact ⟨c, hc, hphysical, rfl⟩
  · rintro ⟨c, hc, hphysical, rfl⟩
    exact ⟨c, ⟨hc, hphysical⟩, rfl⟩

namespace Projection

theorem mem_keys_addTarget {targets : Keyed (List String)} {p q : Path} {column : String} :
    q ∈ (addTarget targets p column).keys ↔ q = p ∨ q ∈ targets.keys :=
  Keyed.mem_keys_put

theorem mem_keys_foldl {fields : List Field} {q : Path}
    {add : Keyed (List String) → Field → Keyed (List String)}
    (hadd : ∀ t f, q ∈ (add t f).keys ↔ f.relation = some q ∨ q ∈ t.keys)
    (t : Keyed (List String)) :
    q ∈ (fields.foldl add t).keys ↔ q ∈ fields.filterMap (·.relation) ∨ q ∈ t.keys := by
  induction fields generalizing t with
  | nil => simp
  | cons f fields ih =>
    rw [List.foldl_cons, ih, hadd, ← or_assoc]
    cases hf : f.relation with
    | none => simp [hf]
    | some p => simp [hf, eq_comm, or_comm]

theorem mem_targets_ofFields {fields : List Field} {primaryKey : List String} {q : Path} :
    q ∈ (ofFields fields primaryKey).targets.keys ↔ q ∈ fields.filterMap (·.relation) := by
  rw [ofFields, mem_keys_foldl]
  · simp
  · intro t f
    cases hf : f.relation with
    | none => simp
    | some p => simp [mem_keys_addTarget, eq_comm]

theorem mem_targets_withSort {p : Projection} {f : Field} {q : Path} :
    q ∈ (p.withSort (some f)).targets.keys ↔ f.relation = some q ∨ q ∈ p.targets.keys := by
  rcases f with ⟨_ | path, column⟩
  · simp [withSort]
  · simp [withSort, mem_keys_addTarget, eq_comm]

theorem mem_reached {p : Projection} {q : Path} :
    q ∈ p.reached ↔ ∃ t ∈ p.targets.keys, Path.passes t q := by
  simp [reached, Path.mem_ancestors]

end Projection

namespace QueryOptions

variable {o : QueryOptions} {root : Entity} {projection : Projection} {s : Schema}

theorem mem_targets (h : o.projection root = some projection) {q : Path} :
    q ∈ projection.targets.keys ↔ q ∈ o.fieldPaths := by
  obtain ⟨fields, hselect, rfl⟩ := Option.map_eq_some_iff.1 h
  have hfields : q ∈ (fields.map Field.ofText).filterMap (·.relation) ↔
      q ∈ fields.filterMap fun f ↦ (Field.ofText f).relation := by
    rw [List.filterMap_map]
    rfl
  rw [fieldPaths, hselect]
  cases hsort : o.sortBy with
  | none =>
    simp only [Option.map_none, Projection.withSort, Projection.mem_targets_ofFields, hfields,
      Option.toList_none, List.append_nil]
  | some f =>
    simp only [Option.map_some, Projection.mem_targets_withSort, Projection.mem_targets_ofFields,
      hfields, Option.toList_some, List.filterMap_append, List.mem_append]
    rw [or_comm]
    simp

theorem mem_reached (h : o.projection root = some projection) {q : Path} :
    q ∈ projection.reached ↔ o.Reaches q := by
  simp only [Projection.mem_reached, mem_targets h, Reaches]

theorem mem_excludedKeys (h : o.projection root = some projection) {e : Entity} {p : Path}
    {column : String} (hp : p ∉ o.fieldPaths) :
    column ∈ (o.planner s root).excludedKeys e p projection.reached ↔ o.Hides e p column := by
  have hselect : o.select.isSome := by
    obtain ⟨fields, hselect, -⟩ := Option.map_eq_some_iff.1 h
    simp [hselect]
  rw [Hides, JoinPlanner.excludedKeys]
  cases hpolicy : o.foreignKeyExclusion with
  | allForeignKeys => simp [planner, hpolicy, hselect, hp]
  | nextHop =>
    simp only [planner, hpolicy, hselect, hp, not_false_eq_true, true_and, List.mem_flatMap,
      List.mem_filterMap, List.mem_filter, mem_reached h, beq_iff_eq]
    constructor
    · rintro ⟨r, ⟨child, ⟨hreached, hparent⟩, hr⟩, hcolumn⟩
      exact ⟨child, r, hreached, hparent, hr, hcolumn⟩
    · rintro ⟨child, r, hreached, hparent, hr, hcolumn⟩
      exact ⟨r, ⟨child, ⟨hreached, hparent⟩, hr⟩, hcolumn⟩

/-- Three ways for a selection to treat a join: it ends there, passes through, or does neither. -/
theorem columnsOf_cases (h : o.projection root = some projection) (p : Path) (e : Entity) :
    (p ∈ o.fieldPaths ∧ ∃ columns, projection.targets.get? p = some columns ∧
      (o.planner s root).columnsOf (some projection) p e =
        (.projected, (columns.filter e.hasColumn ++ e.primaryKey).eraseDups)) ∨
    (p ∉ o.fieldPaths ∧ o.Reaches p ∧
      (o.planner s root).columnsOf (some projection) p e = (.projected,
        e.physicalColumns.filter fun c ↦
          !((o.planner s root).excludedKeys e p projection.reached).contains c)) ∨
    (¬ o.Reaches p ∧
      (o.planner s root).columnsOf (some projection) p e = (.projected, [])) := by
  cases htarget : projection.targets.get? p with
  | some columns =>
    have hp : p ∈ o.fieldPaths :=
      (mem_targets h).1 (Keyed.get?_isSome.1 (by rw [htarget]; rfl))
    exact .inl ⟨hp, columns, rfl, by simp only [JoinPlanner.columnsOf, htarget]⟩
  | none =>
    have hp : p ∉ o.fieldPaths := by
      rw [← mem_targets h, ← Keyed.get?_isSome, htarget]
      simp
    by_cases hreached : o.Reaches p
    · have hmem := (mem_reached h).2 hreached
      refine .inr (.inl ⟨hp, hreached, ?_⟩)
      simp only [JoinPlanner.columnsOf, htarget]
      rw [if_pos (by simpa using hmem)]
    · have hmem := mt (mem_reached h).1 hreached
      refine .inr (.inr ⟨hreached, ?_⟩)
      simp only [JoinPlanner.columnsOf, htarget]
      rw [if_neg (by simpa using hmem)]

end QueryOptions

end Listing
