import Listing.Proofs.Acceptance
import Listing.Proofs.Flattening
import Listing.Proofs.Identity
import Listing.Proofs.Renaming

namespace Listing

/-- No column has a name that could be read as one of a relation. -/
def Schema.ColumnsAreDotless (s : Schema) : Prop :=
  ∀ name e, (name, e) ∈ s.entities → ∀ c ∈ e.columns, '.' ∉ c.name.toList

theorem Schema.ColumnsAreDotless.not_dot_mem {s : Schema} (h : s.ColumnsAreDotless) {e : Entity}
    (he : ∃ name, (name, e) ∈ s.entities) {column : String} (hc : e.hasColumn column) :
    '.' ∉ column.toList := by
  obtain ⟨name, he⟩ := he
  obtain ⟨c, hmem, hc⟩ := List.any_eq_true.1 hc
  simp only [Bool.and_eq_true, beq_iff_eq] at hc
  exact hc.2 ▸ h name e he c hmem

theorem Schema.ownerOf_mem {s : Schema} {root e : Entity} {f : Field}
    (hroot : ∃ name, (name, root) ∈ s.entities) (h : s.ownerOf root f = .ok e) :
    ∃ name, (name, e) ∈ s.entities := by
  rcases f with ⟨_ | q, column⟩
  · exact Except.ok.inj h ▸ hroot
  · obtain ⟨hops, hresolved, h⟩ := bind_eq_ok.1 h
    cases hlast : hops.getLast? with
    | none => exact absurd (List.getLast?_eq_none_iff.1 hlast) (resolvePath_ne_nil hresolved)
    | some hop =>
      rw [hlast, pure_eq_ok] at h
      exact h ▸ resolvePath_target_mem hresolved hop (List.mem_of_getLast? hlast)

namespace Projection

variable {p q : Path} {column c : String} {targets : Keyed (List String)}

/-- Whether a column is asked for at the end of a path. -/
def Asks (targets : Keyed (List String)) (p : Path) (column : String) : Prop :=
  ∃ columns, targets.get? p = some columns ∧ column ∈ columns

theorem asks_addTarget :
    Asks (addTarget targets p column) q c ↔ (p = q ∧ column = c) ∨ Asks targets q c := by
  have hmem (columns : List String) : c ∈ (if columns.contains column then columns
      else columns ++ [column]) ↔ column = c ∨ c ∈ columns := by
    by_cases hcolumn : column ∈ columns
    · simp only [List.contains_eq_mem, hcolumn, decide_true, if_true]
      constructor
      · exact .inr
      · rintro (rfl | hc)
        · exact hcolumn
        · exact hc
    · simp [hcolumn, eq_comm, or_comm]
  rw [addTarget, Asks, Asks, Keyed.get?_put]
  by_cases hq : q = p
  · subst hq
    simp only [if_true, Option.some.injEq, exists_eq_left', hmem, true_and]
    cases targets.get? q <;> simp
  · rw [if_neg hq]
    simp [Ne.symm hq]

theorem asks_foldl {fields : List Field} {add : Keyed (List String) → Field → Keyed (List String)}
    (hadd : ∀ t f, Asks (add t f) q c ↔ f = ⟨some q, c⟩ ∨ Asks t q c) (t : Keyed (List String)) :
    Asks (fields.foldl add t) q c ↔ ⟨some q, c⟩ ∈ fields ∨ Asks t q c := by
  induction fields generalizing t with
  | nil => simp
  | cons f fields ih =>
    rw [List.foldl_cons, ih, hadd, List.mem_cons, or_left_comm, or_assoc, eq_comm]

theorem asks_ofFields {fields : List Field} {primaryKey : List String} :
    Asks (ofFields fields primaryKey).targets q c ↔ ⟨some q, c⟩ ∈ fields := by
  rw [ofFields, asks_foldl]
  · simp [Asks]
  · rintro t ⟨_ | p, column⟩
    · simp
    · simp [asks_addTarget]

theorem asks_withSort {projection : Projection} {f : Option Field} :
    Asks (projection.withSort f).targets q c ↔
      f = some ⟨some q, c⟩ ∨ Asks projection.targets q c := by
  rcases f with _ | ⟨_ | p, column⟩
  · simp [withSort]
  · simp [withSort]
  · simp [withSort, asks_addTarget]

theorem mem_rootColumns_ofFields {fields : List Field} {primaryKey : List String} :
    c ∈ (ofFields fields primaryKey).rootColumns ↔ ⟨none, c⟩ ∈ fields ∨ c ∈ primaryKey := by
  simp only [ofFields, List.mem_eraseDups, List.mem_append, List.mem_filterMap]
  refine or_congr ⟨?_, ?_⟩ Iff.rfl
  · rintro ⟨⟨_ | p, column⟩, hf, hc⟩
    · obtain rfl : column = c := by simpa using hc
      exact hf
    · simp at hc
  · exact fun hf ↦ ⟨_, hf, rfl⟩

theorem mem_rootColumns_withSort {projection : Projection} {f : Option Field} :
    c ∈ (projection.withSort f).rootColumns ↔ f = some ⟨none, c⟩ ∨ c ∈ projection.rootColumns := by
  rcases f with _ | ⟨_ | p, column⟩
  · simp [withSort]
  · simp [withSort, or_comm, eq_comm]
  · simp [withSort]

theorem nodup_rootColumns (fields : List Field) (primaryKey : List String) (f : Option Field) :
    ((ofFields fields primaryKey).withSort f).rootColumns.Nodup := by
  rcases f with _ | ⟨_ | p, column⟩ <;> exact nodup_eraseDups _

end Projection

namespace QueryOptions

variable {o : QueryOptions} {root : Entity} {projection : Projection} {s : Schema} {c : String}

def askedFields (o : QueryOptions) : List Field :=
  match o.select with
  | none => []
  | some fields => (fields ++ o.sortBy.toList).map Field.ofText

theorem fieldPaths_eq (o : QueryOptions) : o.fieldPaths = o.askedFields.filterMap (·.relation) := by
  rw [fieldPaths, askedFields]
  cases o.select with
  | none => rfl
  | some fields => simp only [List.filterMap_map, Function.comp_def]

theorem projection_eq (h : o.projection root = some projection) : ∃ fields, o.select = some fields ∧
    projection = (Projection.ofFields (fields.map Field.ofText) root.primaryKey).withSort
      (o.sortBy.map Field.ofText) := by
  obtain ⟨fields, hselect, hprojection⟩ := Option.map_eq_some_iff.1 h
  exact ⟨fields, hselect, hprojection.symm⟩

theorem mem_askedFields {fields : List String} (h : o.select = some fields) {f : Field} :
    f ∈ o.askedFields ↔ o.sortBy.map Field.ofText = some f ∨ f ∈ fields.map Field.ofText := by
  rw [askedFields, h]
  simp only [List.map_append, List.mem_append, or_comm]
  cases o.sortBy <;> simp [eq_comm]

theorem asks_iff (h : o.projection root = some projection) {q : Path} :
    Projection.Asks projection.targets q c ↔ ⟨some q, c⟩ ∈ o.askedFields := by
  obtain ⟨fields, hselect, rfl⟩ := projection_eq h
  rw [Projection.asks_withSort, Projection.asks_ofFields, mem_askedFields hselect]

theorem mem_rootColumns (h : o.projection root = some projection) :
    c ∈ projection.rootColumns ↔ ⟨none, c⟩ ∈ o.askedFields ∨ c ∈ root.primaryKey := by
  obtain ⟨fields, hselect, rfl⟩ := projection_eq h
  rw [Projection.mem_rootColumns_withSort, Projection.mem_rootColumns_ofFields,
    mem_askedFields hselect, or_assoc]

end QueryOptions

def JoinPlanner.selectedAt (planner : JoinPlanner) (projection : Option Projection) :
    Place → List String
  | .root => planner.rootColumns projection
  | .joined j => j.columns

theorem JoinPlanner.hasColumn_of_mem_rootColumns {planner : JoinPlanner}
    {projection : Option Projection} {c : String} (hc : c ∈ planner.rootColumns projection) :
    planner.root.hasColumn c := by
  cases projection with
  | none => exact Entity.mem_physicalColumns.1 hc
  | some projection => exact (List.mem_filter.1 hc).2

theorem Entity.nodup_physicalColumns (e : Entity) : e.physicalColumns.Nodup := nodup_eraseDups _

namespace Plan

variable {s : Schema} {root e : Entity} {o : QueryOptions} {p : Plan} {t : AliasTable} {j : Join}
  {n : Place} {c : String}

def places (p : Plan) : List Place := .root :: p.joins.map .joined

theorem mem_places : n ∈ p.places ↔ p.Has n := by
  cases n <;> simp [places, Has]

def nameAt (p : Plan) : Place → String
  | .root => p.rootName
  | .joined j => j.name

def entry (p : Plan) (n : Place) (column : String) : SelectColumn :=
  ⟨⟨p.nameAt n, column⟩, n.output column⟩

theorem Compiled.select_eq (h : Compiled s root o p t) : p.select = p.places.flatMap fun n ↦
    ((o.planner s root).selectedAt (o.projection root) n).map (p.entry n) := by
  rw [h.select, places, List.flatMap_cons, List.flatMap_map]
  rfl

theorem Compiled.mem_select (h : Compiled s root o p t) {c : SelectColumn} : c ∈ p.select ↔
    ∃ n, p.Has n ∧ ∃ column ∈ (o.planner s root).selectedAt (o.projection root) n,
      p.entry n column = c := by
  simp only [h.select_eq, List.mem_flatMap, mem_places, List.mem_map]

/-- What a join brings of its target: everything without a selection; with one what a field asks for
and the key, or what is not left out on the way, or nothing. -/
inductive Brings (o : QueryOptions) (root e : Entity) (j : Join) : Prop
  | whole : o.select = none → j.columns = e.physicalColumns → Brings o root e j
  | ended (projection : Projection) (columns : List String) :
    o.projection root = some projection → projection.targets.get? j.path = some columns →
    j.columns = (columns.filter e.hasColumn ++ e.primaryKey).eraseDups → Brings o root e j
  | passed (keep : String → Bool) : o.select.isSome → j.path ∉ o.fieldPaths →
    j.columns = e.physicalColumns.filter keep → Brings o root e j
  | missed : o.select.isSome → ¬ o.Reaches j.path → j.columns = [] → Brings o root e j

theorem Compiled.brings (h : Compiled s root o p t) (hj : j ∈ p.joins) :
    ∃ e, s.targetOf root j.path = .ok e ∧ (∃ name, (name, e) ∈ s.entities) ∧
      Brings o root e j := by
  obtain ⟨u, u', hops, hop, hstep⟩ := h.step hj
  refine ⟨hop.target, hstep.targetOf,
    Schema.resolvePath_target_mem hstep.resolves hop (List.mem_of_getLast? hstep.last), ?_⟩
  have hcolumns := congrArg Prod.snd hstep.brings
  cases hprojection : o.projection root with
  | none =>
    rw [hprojection] at hcolumns
    exact .whole (Option.map_eq_none_iff.1 hprojection) hcolumns
  | some projection =>
    rw [hprojection] at hcolumns
    have hselect : o.select.isSome := by
      obtain ⟨fields, hselect, -⟩ := QueryOptions.projection_eq hprojection
      simp [hselect]
    rcases QueryOptions.columnsOf_cases (s := s) hprojection j.path hop.target with
      ⟨-, columns, htarget, hended⟩ | ⟨hfield, -, hpassed⟩ | ⟨hreached, hnone⟩
    · exact .ended projection columns hprojection htarget
        (hcolumns.trans (congrArg Prod.snd hended))
    · exact .passed _ hselect hfield (hcolumns.trans (congrArg Prod.snd hpassed))
    · exact .missed hselect hreached (hcolumns.trans (congrArg Prod.snd hnone))

theorem Compiled.nodup_selectedAt (h : Compiled s root o p t) (hn : p.Has n) :
    ((o.planner s root).selectedAt (o.projection root) n).Nodup := by
  cases n with
  | root =>
    cases hprojection : o.projection root with
    | none => exact root.nodup_physicalColumns
    | some projection =>
      obtain ⟨fields, -, rfl⟩ := QueryOptions.projection_eq hprojection
      exact (Projection.nodup_rootColumns _ _ _).filter _
  | joined j =>
    obtain ⟨e, -, -, hbrings⟩ := h.brings hn
    show j.columns.Nodup
    cases hbrings with
    | whole _ hcolumns => exact hcolumns ▸ e.nodup_physicalColumns
    | ended _ _ _ _ hcolumns => exact hcolumns ▸ nodup_eraseDups _
    | passed _ _ _ hcolumns => exact hcolumns ▸ e.nodup_physicalColumns.filter _
    | missed _ _ hcolumns => exact hcolumns ▸ List.nodup_nil

theorem Compiled.hasColumn_of_mem (h : Compiled s root o p t) (hkeys : s.KeysArePhysical)
    (hn : p.Has n) (hc : c ∈ (o.planner s root).selectedAt (o.projection root) n) :
    ∃ e, s.ownerOf root ⟨n.path?, c⟩ = .ok e ∧ e.hasColumn c := by
  cases n with
  | root => exact ⟨root, rfl, JoinPlanner.hasColumn_of_mem_rootColumns hc⟩
  | joined j =>
    obtain ⟨e, he, ⟨entity, hentity⟩, hbrings⟩ := h.brings hn
    refine ⟨e, he, ?_⟩
    replace hc : c ∈ j.columns := hc
    cases hbrings with
    | whole _ hcolumns => exact Entity.mem_physicalColumns.1 (hcolumns ▸ hc)
    | ended _ _ _ _ hcolumns =>
      rw [hcolumns, List.mem_eraseDups, List.mem_append] at hc
      rcases hc with hc | hc
      · exact (List.mem_filter.1 hc).2
      · exact hkeys entity e hentity c hc
    | passed _ _ _ hcolumns =>
      exact Entity.mem_physicalColumns.1 (List.mem_of_mem_filter (hcolumns ▸ hc))
    | missed _ _ hcolumns => simp [hcolumns] at hc

/-- Without a selection every physical column is selected, with one those that are asked for. -/
theorem Compiled.mem_selectedAt (h : Compiled s root o p t) (hn : p.Has n)
    (he : s.ownerOf root ⟨n.path?, c⟩ = .ok e) (hc : e.hasColumn c)
    (hasked : o.select = none ∨ ⟨n.path?, c⟩ ∈ o.askedFields) :
    c ∈ (o.planner s root).selectedAt (o.projection root) n := by
  cases n with
  | root =>
    obtain rfl : root = e := Except.ok.inj he
    cases hprojection : o.projection root with
    | none => exact Entity.mem_physicalColumns.2 hc
    | some projection =>
      obtain ⟨fields, hselect, -⟩ := QueryOptions.projection_eq hprojection
      have hfield := hasked.resolve_left (by simp [hselect])
      exact List.mem_filter.2 ⟨(QueryOptions.mem_rootColumns hprojection).2 (.inl hfield), hc⟩
  | joined j =>
    obtain ⟨e', he', -, hbrings⟩ := h.brings hn
    obtain rfl : e' = e := Except.ok.inj (he'.symm.trans he)
    have hpath (hfield : ⟨some j.path, c⟩ ∈ o.askedFields) : j.path ∈ o.fieldPaths := by
      rw [o.fieldPaths_eq]
      exact List.mem_filterMap.2 ⟨_, hfield, rfl⟩
    show c ∈ j.columns
    cases hbrings with
    | whole _ hcolumns => exact hcolumns ▸ Entity.mem_physicalColumns.2 hc
    | ended projection columns hprojection htarget hcolumns =>
      obtain ⟨fields, hselect, -⟩ := QueryOptions.projection_eq hprojection
      have hfield := hasked.resolve_left (by simp [hselect])
      obtain ⟨columns', htarget', hmem⟩ := (QueryOptions.asks_iff hprojection).2 hfield
      obtain rfl : columns' = columns := Option.some.inj (htarget'.symm.trans htarget)
      rw [hcolumns, List.mem_eraseDups]
      exact List.mem_append_left _ (List.mem_filter.2 ⟨hmem, hc⟩)
    | passed _ hselect hpassed _ =>
      have hfield := hasked.resolve_left (Option.isSome_iff_ne_none.1 hselect)
      exact absurd (hpath hfield) hpassed
    | missed hselect hreached _ =>
      have hfield := hasked.resolve_left (Option.isSome_iff_ne_none.1 hselect)
      exact absurd ⟨j.path, hpath hfield, Path.passes_refl j.path⟩ hreached

theorem Compiled.columns_eq_nil (h : Compiled s root o p t) (hselect : o.select.isSome)
    (hj : j ∈ p.joins) (hreached : ¬ o.Reaches j.path) : j.columns = [] := by
  obtain ⟨projection, hprojection⟩ := Option.isSome_iff_exists.1
    (show (o.projection root).isSome by simpa [QueryOptions.projection, JoinPlanner.projectionOf])
  by_contra hne
  exact hreached (h.reaches hprojection ⟨j, hj, hne, Path.passes_refl j.path⟩)

theorem Compiled.exists_place (h : Compiled s root o p t) {f : Field}
    (hf : ∀ q, f.relation = some q → q.isCovered o.relations) :
    ∃ n, p.Has n ∧ n.path? = f.relation := by
  cases hrelation : f.relation with
  | none => exact ⟨.root, trivial, rfl⟩
  | some q =>
    have hq : q ∈ p.joinPaths := h.paths ▸ Path.mem_expand.2 (hf q hrelation)
    obtain ⟨j, hj, rfl⟩ := List.mem_map.1 hq
    exact ⟨.joined j, hj, rfl⟩

structure IsProjection (p : Plan) (s : Schema) (root : Entity) (o : QueryOptions) : Prop where
  distinct : (p.select.map (·.output)).Nodup
  /-- An output is called by where it comes from, and comes from a physical column. -/
  sound : ∀ c ∈ p.select, ∃ n, p.Has n ∧ c.column.table = p.nameAt n ∧
    Field.ofText c.output = ⟨n.path?, c.column.column⟩ ∧
    ∃ e, s.ownerOf root (Field.ofText c.output) = .ok e ∧ e.hasColumn c.column.column
  whole : o.select = none → ∀ c, c ∈ p.select ↔ ∃ n column e, p.Has n ∧
    s.ownerOf root ⟨n.path?, column⟩ = .ok e ∧ e.hasColumn column ∧ c = p.entry n column
  asked : ∀ fields, o.select = some fields → ∀ f ∈ fields, ∀ e,
    s.ownerOf root (Field.ofText f) = .ok e → e.hasColumn (Field.ofText f).column →
      ∃ c ∈ p.select, c.output = f
  sorted : ∀ f, o.sortBy = some f → ∃ c ∈ p.select, c.output = f
  keys : ∀ c ∈ root.primaryKey, p.entry .root c ∈ p.select
  silent : o.select.isSome → ∀ j ∈ p.joins, ¬ o.Reaches j.path →
    ∀ c ∈ p.select, c.column.table ≠ j.name

theorem Compiled.ofText_entry (h : Compiled s root o p t) (hkeys : s.KeysArePhysical)
    (hdots : s.ColumnsAreDotless) (hroot : ∃ name, (name, root) ∈ s.entities) (hn : p.Has n)
    (hc : c ∈ (o.planner s root).selectedAt (o.projection root) n) :
    Field.ofText (p.entry n c).output = ⟨n.path?, c⟩ := by
  obtain ⟨e, he, hcolumn⟩ := h.hasColumn_of_mem hkeys hn hc
  exact Field.ofText_text (hdots.not_dot_mem (Schema.ownerOf_mem hroot he) hcolumn)

theorem Compiled.nodup_paths (h : Compiled s root o p t) : (p.places.map Place.path?).Nodup := by
  have hjoins : (p.joins.map (·.path)).Nodup := h.isNested.paths
  rw [places, List.map_cons, List.map_map, List.nodup_cons]
  refine ⟨by simp [Place.path?], ?_⟩
  have hmap : p.joins.map (Place.path? ∘ Place.joined) = (p.joins.map (·.path)).map some := by
    rw [List.map_map]
    rfl
  rw [hmap]
  exact hjoins.map fun _ _ ↦ Option.some.inj

theorem Compiled.nodup_outputs (h : Compiled s root o p t) (hkeys : s.KeysArePhysical)
    (hdots : s.ColumnsAreDotless) (hroot : ∃ name, (name, root) ∈ s.entities) :
    (p.select.map (·.output)).Nodup := by
  -- the fields that the outputs are read as are distinct
  refine List.Nodup.of_map Field.ofText ?_
  have hfields : (p.select.map (·.output)).map Field.ofText = p.places.flatMap fun n ↦
      ((o.planner s root).selectedAt (o.projection root) n).map fun c ↦ ⟨n.path?, c⟩ := by
    rw [h.select_eq, List.map_map, List.map_flatMap]
    refine List.flatMap_congr fun n hn ↦ ?_
    rw [List.map_map]
    exact List.map_congr_left fun c hc ↦ h.ofText_entry hkeys hdots hroot (mem_places.1 hn) hc
  rw [hfields, List.nodup_flatMap]
  constructor
  · intro n hn
    exact (h.nodup_selectedAt (mem_places.1 hn)).map fun c c' heq ↦ (Field.mk.inj heq).2
  · refine (List.pairwise_map.1 h.nodup_paths).imp fun {n m} hne ↦ List.disjoint_left.2 ?_
    intro f hf hf'
    obtain ⟨c, -, rfl⟩ := List.mem_map.1 hf
    obtain ⟨c', -, heq⟩ := List.mem_map.1 hf'
    exact hne (Field.mk.inj heq).1.symm

theorem Compiled.exists_output (h : Compiled s root o p t) {f : String}
    (hcovered : ∀ q, (Field.ofText f).relation = some q → q.isCovered o.relations)
    (he : s.ownerOf root (Field.ofText f) = .ok e) (hc : e.hasColumn (Field.ofText f).column)
    (hasked : o.select = none ∨ Field.ofText f ∈ o.askedFields) :
    ∃ c ∈ p.select, c.output = f := by
  obtain ⟨n, hn, hpath⟩ := h.exists_place hcovered
  have hfield : Field.ofText f = ⟨n.path?, (Field.ofText f).column⟩ := by rw [hpath]
  refine ⟨p.entry n (Field.ofText f).column, h.mem_select.2 ⟨n, hn, _, ?_, rfl⟩, ?_⟩
  · exact h.mem_selectedAt hn (hfield ▸ he) hc (hfield ▸ hasked)
  · rw [entry, Place.output, ← hfield, Field.text_ofText]

theorem Compiled.rootKey_mem (h : Compiled s root o p t) (hc : c ∈ root.primaryKey)
    (hcolumn : root.hasColumn c) : p.entry .root c ∈ p.select := by
  refine h.mem_select.2 ⟨.root, trivial, c, ?_, rfl⟩
  cases hprojection : o.projection root with
  | none => exact Entity.mem_physicalColumns.2 hcolumn
  | some projection =>
    exact List.mem_filter.2 ⟨(QueryOptions.mem_rootColumns hprojection).2 (.inr hc), hcolumn⟩

theorem Compiled.silent (h : Compiled s root o p t) (hselect : o.select.isSome) (hj : j ∈ p.joins)
    (hreached : ¬ o.Reaches j.path) : ∀ c ∈ p.select, c.column.table ≠ j.name := by
  intro c hc htable
  obtain ⟨n, hn, column, hcolumn, rfl⟩ := h.mem_select.1 hc
  have hrole := congrArg p.roleOf htable
  rw [roleOf_name h.distinct hj] at hrole
  cases n with
  | root => exact absurd (p.roleOf_rootName.symm.trans hrole) (by simp)
  | joined i =>
    have hpath : i.path = j.path :=
      Role.path.inj ((roleOf_name h.distinct hn).symm.trans hrole)
    replace hcolumn : column ∈ i.columns := hcolumn
    rw [h.columns_eq_nil hselect hn (hpath ▸ hreached)] at hcolumn
    exact absurd hcolumn List.not_mem_nil

/-- Where keys are physical and columns go without dots, a compiled plan selects what its options
ask for, under the names they use for it, and nothing that is not there. -/
theorem isProjection_of_compile {name : String} (hroot : s.requireEntity name = .ok root)
    (h : compile s name o = .ok p) (hkeys : s.KeysArePhysical) (hdots : s.ColumnsAreDotless) :
    p.IsProjection s root o := by
  obtain ⟨root', t, hroot', hc⟩ := compile_ok h
  obtain rfl : root' = root := Except.ok.inj (hroot'.symm.trans hroot)
  have hentity : (name, root') ∈ s.entities := Keyed.mem_of_get? (requireEntity_eq_ok.1 hroot)
  have hmem : ∃ name, (name, root') ∈ s.entities := ⟨name, hentity⟩
  refine ⟨hc.nodup_outputs hkeys hdots hmem, ?_, ?_, ?_, ?_, ?_, ?_⟩
  · intro c hselected
    obtain ⟨n, hn, column, hcolumn, rfl⟩ := hc.mem_select.1 hselected
    have hfield := hc.ofText_entry hkeys hdots hmem hn hcolumn
    exact ⟨n, hn, rfl, hfield, hfield ▸ hc.hasColumn_of_mem hkeys hn hcolumn⟩
  · intro hselect c
    rw [hc.mem_select]
    constructor
    · rintro ⟨n, hn, column, hcolumn, rfl⟩
      obtain ⟨e, he, hphysical⟩ := hc.hasColumn_of_mem hkeys hn hcolumn
      exact ⟨n, column, e, hn, he, hphysical, rfl⟩
    · rintro ⟨n, column, e, hn, he, hphysical, rfl⟩
      exact ⟨n, hn, column, hc.mem_selectedAt hn he hphysical (.inl hselect), rfl⟩
  · intro fields hselect f hf e he hphysical
    refine hc.exists_output (hc.valid.covered fields hselect f hf) he hphysical (.inr ?_)
    exact (QueryOptions.mem_askedFields hselect).2 (.inr (List.mem_map_of_mem hf))
  · intro f hsort
    obtain ⟨hcovered, e, he, hphysical⟩ := hc.valid.sortBy f hsort
    refine hc.exists_output hcovered he hphysical ?_
    cases hselect : o.select with
    | none => exact .inl rfl
    | some fields => exact .inr ((QueryOptions.mem_askedFields hselect).2 (.inl (by simp [hsort])))
  · exact fun c hkey ↦ hc.rootKey_mem hkey (hkeys name root' hentity c hkey)
  · exact fun hselect j hj hreached ↦ hc.silent hselect hj hreached

def memberRoles : QueryOptions :=
  { relations := ["memberships.person"], select := some ["name", "memberships.person.name", "name"]
    sortBy := some "memberships.role" }

theorem isProjection_of_compile_memberRoles : ∃ p, compile groups "Group" memberRoles = .ok p ∧
    p.select.map (·.output) = ["name", "id", "memberships.role", "memberships.groupId",
      "memberships.personId", "memberships.person.name", "memberships.person.id"] ∧
    ∃ root, groups.requireEntity "Group" = .ok root ∧ p.IsProjection groups root memberRoles := by
  have hplan : (compile groups "Group" memberRoles).toOption.map (·.select.map (·.output)) =
      some ["name", "id", "memberships.role", "memberships.groupId", "memberships.personId",
        "memberships.person.name", "memberships.person.id"] := by
    simp only [compile, ofChecked, JoinPlanner.plan,
      show Path.expand memberRoles.relations = _ from expand_memberNames]
    decide +kernel
  obtain ⟨p, hp, houtputs⟩ := exists_ok_of_map hplan
  obtain ⟨root, t, hroot, -⟩ := compile_ok hp
  have hdots : groups.ColumnsAreDotless := by
    have h : groups.entities.all fun e ↦ e.2.columns.all fun c ↦ !c.name.toList.contains '.' := by
      decide
    intro name e he c hc
    simpa using List.all_eq_true.1 (List.all_eq_true.1 h _ he) c hc
  exact ⟨p, hp, houtputs, root, hroot,
    isProjection_of_compile hroot hp groups_keysArePhysical hdots⟩

end Plan

end Listing
