import Listing.Proofs.Acceptance
import Listing.Proofs.Partition
import Listing.Proofs.Selection

namespace Listing

/-- No relation of an entity goes by the name of one of its columns. -/
def Schema.RelationsAreApart (s : Schema) : Prop :=
  ∀ name e, (name, e) ∈ s.entities → ∀ r ∈ e.relations, ¬ e.hasColumn r.name

namespace Shape

variable {s : Shape} {children : List (String × Shape)} {name : String}

theorem hasContent_iff (columns : List (String × String)) (key : List String) (many : Bool)
    (children : List (String × Shape)) : (mk columns key many children).hasContent ↔
      columns ≠ [] ∨ ∃ c ∈ children, c.2.hasContent := by
  have hany : anyContent children ↔ ∃ c ∈ children, c.2.hasContent := by
    induction children with
    | nil => simp [anyContent]
    | cons c rest ih => simp [anyContent, ih]
  rw [hasContent, Bool.or_eq_true, hany]
  simp

theorem withRelations_filter (first : Row) (rows : List Row) (done : Keyed Datum)
    (children : List (String × Shape)) : withRelations first rows done children =
      withRelations first rows done (children.filter (·.2.hasContent)) := by
  induction children generalizing done with
  | nil => rfl
  | cons c rest ih =>
    rw [List.filter_cons, withRelations]
    by_cases hc : c.2.hasContent
    · rw [if_pos hc, if_pos hc, withRelations, if_pos hc, ih]
    · rw [if_neg hc, if_neg hc, ih]

theorem mem_keys_withRelations {first : Row} {rows : List Row} {done : Keyed Datum}
    (h : name ∈ (withRelations first rows done children).keys) :
    name ∈ done.keys ∨ name ∈ children.map (·.1) := by
  induction children generalizing done with
  | nil => exact .inl h
  | cons c rest ih =>
    rw [withRelations] at h
    rw [List.map_cons, List.mem_cons]
    split at h
    · rcases ih h with hdone | hrest
      · exact (Keyed.mem_keys_put.1 hdone).elim (fun e ↦ .inr (.inl e)) .inl
      · exact .inr (.inr hrest)
    · exact (ih h).imp_right .inr

end Shape

namespace Plan

variable {p : Plan} {joins : List Join} {n : Place} {j : Join}

/-- What is built at a place. -/
def shapeAt (p : Plan) (n : Place) : Shape := ((Shape.ofPlan p).at? n.segments).getD (p.bare n)

instance (p : Plan) (j : Join) : Decidable (p.HasContent j) :=
  inferInstanceAs (Decidable (∃ i ∈ p.joins, i.columns ≠ [] ∧ i.path.passes j.path))

/-- The relations of a place that bring something. -/
def shownRelations (p : Plan) (n : Place) : List Join :=
  (n.relations p.joins).filter fun j ↦ p.HasContent j

theorem at?_shapeAt (hp : IsNested p.joins) (hn : p.Has n) :
    (Shape.ofPlan p).at? n.segments = some (p.shapeAt n) ∧
      p.Describes p.joins n (p.shapeAt n) := by
  have hroot := describes_ofPlan hp
  cases n with
  | root => exact ⟨rfl, hroot⟩
  | joined j =>
    obtain ⟨s, hs, hdescribes⟩ := hroot.at? hp hn
    replace hs : (Shape.ofPlan p).at? (Place.joined j).segments = some s := hs
    rw [shapeAt, hs]
    exact ⟨rfl, hdescribes⟩

theorem shapeAt_eq (hp : IsNested p.joins) (hn : p.Has n) : p.shapeAt n =
    .mk (p.bare n).columns (p.bare n).key (p.bare n).many
      ((n.relations p.joins).map fun j ↦ (j.path.leaf, p.shapeAt (.joined j))) := by
  obtain ⟨hat, hdescribes⟩ := at?_shapeAt hp hn
  generalize hs : p.shapeAt n = s at hat hdescribes
  obtain ⟨n, child, hchild⟩ := hdescribes
  congr 1
  refine List.map_congr_left fun j hj ↦ congrArg (Prod.mk j.path.leaf) ?_
  have hget : Keyed.get? ((n.relations p.joins).map fun j ↦ (j.path.leaf, child j)) j.path.leaf =
      some (child j) := by
    refine Keyed.get?_map_of_mem hj fun k hk hleaf ↦ ?_
    exact List.inj_on_of_nodup_map hp.paths (has_of_relation hk) (has_of_relation hj)
      (Place.path_eq_of_leaf_eq hk hj hleaf)
  rw [shapeAt, Place.segments_relation hj, Shape.at?_concat, hat]
  simp [Shape.children, hget]

theorem IsNested.exists_passed (hp : IsNested joins) {i : Join} (hi : i ∈ joins) {q : Path}
    (hq : i.path.passes q) : ∃ k ∈ joins, k.path = q := by
  induction hdepth : i.path.segments.length using Nat.strong_induction_on generalizing i with
  | _ depth ih =>
    have step {n : Place} (hin : i ∈ n.relations joins) :
        i.path = q ∨ q.segments <+: n.segments := by
      have hprefix := Path.passes_iff.1 hq
      rw [(Place.mem_relations.1 hin).2, List.prefix_concat_iff] at hprefix
      refine hprefix.imp_left fun hsegments ↦ Path.segments_injective ?_
      rw [hsegments, (Place.mem_relations.1 hin).2]
    rcases hp.mem_relations hi with hroot | ⟨m, hm, him⟩
    · refine ⟨i, hi, (step hroot).resolve_right fun hnone ↦ q.segments_ne_nil ?_⟩
      exact List.prefix_nil.1 hnone
    · rcases step him with hiq | hmq
      · exact ⟨i, hi, hiq⟩
      · refine ih _ ?_ hm (Path.passes_iff.2 hmq) rfl
        rw [← hdepth, (Place.mem_relations.1 him).2, List.length_append]
        simp [Place.segments]

theorem hasContent_iff (hp : IsNested p.joins) (hj : j ∈ p.joins) : p.HasContent j ↔
    j.columns ≠ [] ∨ ∃ k ∈ (Place.joined j).relations p.joins, p.HasContent k := by
  constructor
  · rintro ⟨i, hi, hcolumns, hpasses⟩
    obtain ⟨tail, htail⟩ := Path.passes_iff.1 hpasses
    rcases tail with _ | ⟨name, tail⟩
    · obtain rfl : j = i := by
        refine List.inj_on_of_nodup_map hp.paths hj hi (Path.segments_injective ?_)
        rw [← htail, List.append_nil]
      exact .inl hcolumns
    · -- the next join on the way to the one with columns
      have hsegments : (Path.ofSegments (j.path.segments ++ [name])).segments =
          j.path.segments ++ [name] := by
        refine Path.segments_ofSegments_sublist (p := i.path) (by simp) ?_
        rw [← htail]
        simp
      have hnext : i.path.passes (Path.ofSegments (j.path.segments ++ [name])) := by
        rw [Path.passes_iff, hsegments, ← htail]
        exact ⟨tail, by simp⟩
      obtain ⟨k, hk, hpath⟩ := hp.exists_passed hi hnext
      have hleaf : k.path.segments = (Place.joined j).segments ++ [name] := hpath ▸ hsegments
      refine .inr ⟨k, Place.mem_relations.2 ⟨hk, ?_⟩, i, hi, hcolumns, hpath ▸ hnext⟩
      rw [hleaf, Path.leaf, hleaf]
      simp
  · rintro (hcolumns | ⟨k, hk, i, hi, hcolumns, hpasses⟩)
    · exact ⟨j, hj, hcolumns, Path.passes_refl j.path⟩
    · refine ⟨i, hi, hcolumns, Path.passes_trans hpasses (Path.passes_iff.2 ?_)⟩
      rw [(Place.mem_relations.1 hk).2]
      exact List.prefix_append _ _

theorem Describes.hasContent_iff {s : Shape} (hp : IsNested p.joins)
    (h : p.Describes p.joins n s) (hn : n = .joined j) (hj : j ∈ p.joins) :
    s.hasContent ↔ p.HasContent j := by
  induction h generalizing j with
  | intro n child _ ih =>
    subst hn
    rw [Shape.hasContent_iff, Plan.hasContent_iff hp hj]
    refine or_congr ?_ ?_
    · simp [bare_columns, columnsAt]
    · simp only [List.mem_map, exists_exists_and_eq_and]
      exact exists_congr fun k ↦ and_congr_right fun hk ↦ ih k hk rfl (has_of_relation hk)

def selectedColumns (p : Plan) (n : Place) : List String :=
  (p.select.filter fun c ↦ c.column.table == p.nameAt n).map (·.column.column)

/-- A field for each selected column and for each relation that brings something. -/
def fieldsAt (p : Plan) (n : Place) (first : Row) (rows : List Row) : Keyed Datum :=
  ((p.selectedColumns n).map fun c ↦ (c, cell first (n.output c))) ++
    (p.shownRelations n).map fun j ↦ (j.path.leaf,
      Shape.relationValue (p.shapeAt (.joined j)) (p.shapeAt (.joined j)).record first rows)

/-- The fields of a place go by names of their own, and a record has all of them. -/
structure KeepsFields (p : Plan) (n : Place) : Prop where
  found : (Shape.ofPlan p).at? n.segments = some (p.shapeAt n)
  distinct : (p.selectedColumns n ++ (p.shownRelations n).map (·.path.leaf)).Nodup
  kept : ∀ first rest, (p.shapeAt n).record (first :: rest) = p.fieldsAt n first (first :: rest)

theorem filter_hasContent (hp : IsNested p.joins) (n : Place) :
    ((n.relations p.joins).map fun j ↦ (j.path.leaf, p.shapeAt (.joined j))).filter
      (·.2.hasContent) = (p.shownRelations n).map fun j ↦ (j.path.leaf, p.shapeAt (.joined j)) := by
  rw [List.filter_map, shownRelations]
  congr 1
  refine List.filter_congr fun j hj ↦ ?_
  have hdescribes := (at?_shapeAt hp (has_of_relation hj)).2
  rw [Bool.eq_iff_iff, decide_eq_true_iff]
  exact hdescribes.hasContent_iff hp rfl (has_of_relation hj)

theorem record_shapeAt (hp : IsNested p.joins) (hn : p.Has n) (first : Row) (rest : List Row) :
    (p.shapeAt n).record (first :: rest) = Shape.withRelations first (first :: rest)
      (Keyed.ofEntries ((p.columnsAt n).map fun c ↦ (c, cell first (n.output c))))
      ((p.shownRelations n).map fun j ↦ (j.path.leaf, p.shapeAt (.joined j))) := by
  rw [shapeAt_eq hp hn, Shape.record, Shape.withRelations_filter, filter_hasContent hp,
    Shape.ownColumns, bare_columns, List.map_map]
  rfl

theorem mem_keys_record (hp : IsNested p.joins) (hn : p.Has n) {first : Row} {rest : List Row}
    {name : String} (h : name ∈ ((p.shapeAt n).record (first :: rest)).keys) :
    name ∈ p.columnsAt n ∨ ∃ j ∈ p.shownRelations n, j.path.leaf = name := by
  rw [record_shapeAt hp hn] at h
  refine (Shape.mem_keys_withRelations h).imp (fun hown ↦ ?_) fun hleaf ↦ ?_
  · rw [Keyed.mem_keys_ofEntries] at hown
    simpa [Keyed.keys] using hown
  · simpa using hleaf

theorem not_dot_mem_rootField (hp : IsNested p.joins) {first : Row} {rest : List Row}
    {name : String} (h : name ∈ ((p.shapeAt .root).record (first :: rest)).keys) :
    '.' ∉ name.toList := by
  rcases mem_keys_record (n := .root) hp trivial h with hcolumn | ⟨j, -, rfl⟩
  · simpa using (List.mem_filter.1 hcolumn).2
  · exact Path.not_dot_mem (Path.leaf_mem _)

variable {s : Schema} {root : Entity} {o : QueryOptions} {t : AliasTable} {c : String}

theorem Compiled.nodup_names (h : Compiled s root o p t) : (p.places.map p.nameAt).Nodup := by
  refine List.Nodup.of_map p.roleOf ?_
  have hroles : (p.places.map p.nameAt).map p.roleOf =
      (p.places.map Place.path?).map Role.ofPath? := by
    rw [List.map_map, List.map_map]
    refine List.map_congr_left fun n hn ↦ ?_
    cases n with
    | root => exact p.roleOf_rootName
    | joined j => exact roleOf_name h.distinct (mem_places.1 hn)
  rw [hroles]
  exact h.nodup_paths.map Role.ofPath?_injective

theorem Compiled.selectedColumns_eq (h : Compiled s root o p t) (hn : p.Has n) :
    p.selectedColumns n = (o.planner s root).selectedAt (o.projection root) n := by
  let block (n : Place) : List SelectColumn :=
    ((o.planner s root).selectedAt (o.projection root) n).map (p.entry n)
  have hblock : (p.places.flatMap block).filter (fun c ↦ c.column.table == p.nameAt n) =
      block n := by
    refine Groups.filter_flatMap_block (fun n _ c hc ↦ ?_) h.nodup_names n (mem_places.2 hn)
    obtain ⟨column, -, rfl⟩ := List.mem_map.1 hc
    rfl
  rw [selectedColumns, h.select_eq, hblock, List.map_map]
  exact List.map_id _

/-- Of the columns of the root, records have those whose names have no dot. -/
theorem Compiled.rootColumns_eq (h : Compiled s root o p t) :
    p.rootColumns = (p.selectedColumns .root).filter fun c ↦ !c.toList.contains '.' := by
  have hcolumns : p.selectedColumns .root = (o.planner s root).rootColumns (o.projection root) :=
    h.selectedColumns_eq (n := .root) trivial
  have hroot : ((p.selectedColumns .root).map (SelectColumn.ofRoot p.rootName)).map (·.output) =
      p.selectedColumns .root := by
    rw [List.map_map]
    exact List.map_id _
  have hjoined : ((p.joins.flatMap fun j ↦
      j.columns.map (SelectColumn.ofJoin j.path j.name)).map (·.output)).filter
        (fun o ↦ !o.toList.contains '.') = [] := by
    refine List.filter_eq_nil_iff.2 fun output houtput ↦ ?_
    obtain ⟨e, he, rfl⟩ := List.mem_map.1 houtput
    obtain ⟨j, -, he⟩ := List.mem_flatMap.1 he
    obtain ⟨c, -, rfl⟩ := List.mem_map.1 he
    simp [SelectColumn.ofJoin, Field.text]
  rw [rootColumns, h.select, ← hcolumns, List.map_append, hroot, List.filter_append, hjoined,
    List.append_nil]

theorem Compiled.columnsAt_eq (h : Compiled s root o p t) (hn : p.Has n)
    (hdots : n = .root → ∀ c ∈ p.selectedColumns n, '.' ∉ c.toList) :
    p.columnsAt n = p.selectedColumns n := by
  cases n with
  | root =>
    rw [columnsAt, h.rootColumns_eq, List.filter_eq_self]
    exact fun c hc ↦ by simpa using hdots rfl c hc
  | joined j => exact (h.selectedColumns_eq hn).symm

theorem Compiled.nodup_selectedColumns (h : Compiled s root o p t) (hn : p.Has n) :
    (p.selectedColumns n).Nodup :=
  h.selectedColumns_eq hn ▸ h.nodup_selectedAt hn

theorem Compiled.apart_of_keepsFields (h : Compiled s root o p t) (hkeeps : p.KeepsFields n)
    (hc : c ∈ p.selectedColumns n) :
    (n = .root → '.' ∉ c.toList) ∧ ∀ j ∈ p.shownRelations n, j.path.leaf ≠ c := by
  refine ⟨?_, fun j hj hleaf ↦ ?_⟩
  · rintro rfl
    have hfield : c ∈ (p.fieldsAt .root [] [[]]).keys :=
      List.mem_map.2 ⟨_, List.mem_append_left _ (List.mem_map_of_mem hc), rfl⟩
    rw [← hkeeps.kept] at hfield
    exact not_dot_mem_rootField h.isNested hfield
  · exact (List.nodup_append.1 hkeeps.distinct).2.2 c hc _ (List.mem_map_of_mem hj) hleaf.symm

/-- Columns are distinct among themselves, and so are relations; what is left is that neither goes
by a name of the others. -/
theorem Compiled.keepsFields_of_apart (h : Compiled s root o p t) (hn : p.Has n)
    (hdots : n = .root → ∀ c ∈ p.selectedColumns n, '.' ∉ c.toList)
    (hapart : ∀ c ∈ p.selectedColumns n, ∀ j ∈ p.shownRelations n, j.path.leaf ≠ c) :
    p.KeepsFields n := by
  have hcolumns := h.nodup_selectedColumns hn
  have hleaves : ((p.shownRelations n).map (·.path.leaf)).Nodup :=
    (List.filter_sublist.map _).nodup (h.isNested.nodup_leaves n)
  have hdistinct : (p.selectedColumns n ++ (p.shownRelations n).map (·.path.leaf)).Nodup := by
    refine List.nodup_append.2 ⟨hcolumns, hleaves, ?_⟩
    rintro c hc _ hleaf rfl
    obtain ⟨j, hj, rfl⟩ := List.mem_map.1 hleaf
    exact hapart _ hc j hj rfl
  refine ⟨(at?_shapeAt h.isNested hn).1, hdistinct, fun first rest ↦ ?_⟩
  rw [record_shapeAt h.isNested hn, h.columnsAt_eq hn hdots, Keyed.ofEntries_eq_self,
    Shape.withRelations_eq_append, fieldsAt, List.map_map]
  · rfl
  · intro child hchild
    rw [← filter_hasContent h.isNested] at hchild
    exact (List.mem_filter.1 hchild).2
  · simpa [Keyed.keys, Function.comp_def] using hdistinct
  · simpa [Keyed.keys, Function.comp_def] using hcolumns

theorem Compiled.exists_relation (h : Compiled s root o p t) (hj : j ∈ n.relations p.joins)
    (column : String) : ∃ e, s.ownerOf root ⟨n.path?, column⟩ = .ok e ∧
      (e.relation? j.path.leaf).isSome := by
  obtain ⟨u, u', hops, hop, hstep⟩ := h.step (has_of_relation hj)
  have hparent : j.path.parent? = n.path? := by simpa using (List.mem_filter.1 hj).2
  exact hparent ▸ Schema.exists_relation hstep.resolves column

theorem Compiled.keepsFields (h : Compiled s root o p t)
    (hroot : ∃ name, (name, root) ∈ s.entities) (hkeys : s.KeysArePhysical)
    (hdots : s.ColumnsAreDotless) (hapart : s.RelationsAreApart) (hn : p.Has n) :
    p.KeepsFields n := by
  have hphysical (c : String) (hc : c ∈ p.selectedColumns n) :
      ∃ e, s.ownerOf root ⟨n.path?, c⟩ = .ok e ∧ e.hasColumn c :=
    h.hasColumn_of_mem hkeys hn (h.selectedColumns_eq hn ▸ hc)
  refine h.keepsFields_of_apart hn (fun _ c hc ↦ ?_) fun c hc j hj hleaf ↦ ?_
  · obtain ⟨e, he, hcolumn⟩ := hphysical c hc
    exact hdots.not_dot_mem (Schema.ownerOf_mem hroot he) hcolumn
  · obtain ⟨e, he, hcolumn⟩ := hphysical c hc
    obtain ⟨name, hentity⟩ := Schema.ownerOf_mem hroot he
    obtain ⟨e', he', hrelation⟩ := h.exists_relation (List.mem_filter.1 hj).1 c
    obtain rfl : e = e' := Except.ok.inj (he.symm.trans he')
    obtain ⟨r, hr⟩ := Option.isSome_iff_exists.1 hrelation
    have hname : r.name = c := by simpa [hleaf] using List.find?_some hr
    exact hapart name e hentity r (List.mem_of_find?_eq_some hr) (hname ▸ hcolumn)

/-- At every place of a compiled plan the fields are kept exactly where no selected column goes by
the name of a relation that brings something, and at the root none by a name with a dot. -/
theorem keepsFields_iff_of_compile {name : String} (h : compile s name o = .ok p) (hn : p.Has n) :
    p.KeepsFields n ↔ ∀ c ∈ p.selectedColumns n,
      (n = .root → '.' ∉ c.toList) ∧ ∀ j ∈ p.shownRelations n, j.path.leaf ≠ c := by
  obtain ⟨root, t, -, hc⟩ := compile_ok h
  constructor
  · exact fun hkeeps c hcolumn ↦ hc.apart_of_keepsFields hkeeps hcolumn
  · intro hnames
    exact hc.keepsFields_of_apart hn (fun hroot c hcolumn ↦ (hnames c hcolumn).1 hroot)
      fun c hcolumn ↦ (hnames c hcolumn).2

theorem keepsFields_iff_of_compile_memberNames :
    ∃ p, compile groups "Group" memberNames = .ok p ∧ p.places.length = 3 ∧
      ∀ n, p.Has n → p.KeepsFields n := by
  have hplan : (compile groups "Group" memberNames).toOption.map (fun p ↦ (p.places.length,
      p.places.all fun n ↦ (p.selectedColumns n).all fun c ↦ !c.toList.contains '.' &&
        !((p.shownRelations n).map (·.path.leaf)).contains c)) = some (3, true) := by
    simp only [compile, ofChecked, JoinPlanner.plan, expand_memberNames]
    decide +kernel
  obtain ⟨p, hp, hv⟩ := exists_ok_of_map hplan
  obtain ⟨hlength, hapart⟩ := Prod.mk.inj hv
  refine ⟨p, hp, hlength, fun n hn ↦ (keepsFields_iff_of_compile hp hn).2 fun c hc ↦ ?_⟩
  have hnames := List.all_eq_true.1 (List.all_eq_true.1 hapart n (mem_places.2 hn)) c hc
  simp only [Bool.and_eq_true, Bool.not_eq_true', List.contains_eq_mem, decide_eq_false_iff_not,
    List.mem_map, not_exists, not_and] at hnames
  exact ⟨fun _ ↦ hnames.1, hnames.2⟩

def namesakes : Schema :=
  .ofEntities [
    { name := "Payment", table := "payments", primaryKey := ["id"]
      columns := [⟨"id", false⟩, ⟨"employee", false⟩]
      relations := [⟨"employee", "Employee", .manyToOne, [⟨"employee", "id"⟩], none, none⟩]
      softDelete := none },
    { name := "Employee", table := "employees", primaryKey := ["id"]
      columns := [⟨"id", false⟩, ⟨"role", false⟩], relations := [], softDelete := none }]

def withEmployee : QueryOptions := { relations := ["employee"] }

def orphanedRow : Row :=
  [("id", .int 1), ("employee", .int 5), ("employee.id", .null), ("employee.role", .null)]

/-- The number of the employee is selected, and the record does not have it. -/
theorem records_of_namesake : namesakes.check = .ok () ∧
    ∃ p, compile namesakes "Payment" withEmployee = .ok p ∧
      p.selectedColumns .root = ["id", "employee"] ∧
      (p.shownRelations .root).map (·.path.leaf) = ["employee"] ∧
      p.records [orphanedRow] = [.table [("id", .int 1), ("employee", .null)]] ∧
      ¬ p.KeepsFields .root := by
  refine ⟨rfl, ?_⟩
  have hexpand : Path.expand withEmployee.relations = ["employee"] :=
    Path.expand_eq_of_ascending (by decide +kernel)
  have hplan : (compile namesakes "Payment" withEmployee).toOption.map (fun p ↦
      (p.selectedColumns .root, (p.shownRelations .root).map (·.path.leaf),
        p.records [orphanedRow])) =
      some (["id", "employee"], ["employee"], [.table [("id", .int 1), ("employee", .null)]]) := by
    simp only [compile, ofChecked, JoinPlanner.plan, hexpand]
    decide +kernel
  obtain ⟨p, hp, hv⟩ := exists_ok_of_map hplan
  simp only [Prod.mk.injEq] at hv
  obtain ⟨hcolumns, hleaves, hrecords⟩ := hv
  refine ⟨p, hp, hcolumns, hleaves, hrecords, fun hkeeps ↦ ?_⟩
  have hdistinct := hkeeps.distinct
  rw [hcolumns, hleaves] at hdistinct
  exact absurd hdistinct (by decide)

/-- A record has every column of a row, apart from names with a dot, which belong to relations. -/
def Carries (row : Row) (record : Datum) : Prop :=
  ∀ c ∈ Keyed.keys row, '.' ∉ c.toList →
    ∃ fields, record = .table fields ∧ Keyed.get? fields c = some (cell row c)

/-- Every record has the columns of the row that it starts from. -/
def CarriesRows (p : Plan) (rows : List Row) : Prop :=
  List.Forall₂ (fun group record ↦ ∀ row ∈ group.head?, Carries row record)
    (p.recordRows rows) (p.records rows)

/-- What a page statement begins with that fetches all columns of the root. -/
def FetchesAll (p : Plan) (d : Dialect) (page : Statement) : Prop :=
  ("SELECT " ++ d.quote p.rootName ++ ".*").toList <+: page.sql.toList

theorem carries_empty {row : Row} :
    Carries row (.table []) ↔ ∀ c ∈ Keyed.keys row, '.' ∈ c.toList := by
  refine forall₂_congr fun c _ ↦ ⟨fun h ↦ ?_, fun hdot hnot ↦ absurd hdot hnot⟩
  by_contra hnot
  obtain ⟨fields, hfields, hget⟩ := h hnot
  obtain rfl : [] = fields := Datum.table.inj hfields
  simp at hget

theorem fetchesAll_select (hselect : p.select = []) (d : Dialect) :
    p.FetchesAll d ((Draft.select p).statement d) := by
  have hselection : Draft.selection p = [.name p.rootName, .word ".*"] := by
    rw [Draft.selection, hselect]
    rfl
  rw [FetchesAll, Draft.select, hselection]
  simp [Draft.statement, Draft.textFrom, Dialect.quote]

theorem Compiled.record_eq_nil (h : Compiled s root o p t) (hselect : p.select = [])
    (rows : List Row) : (Shape.ofPlan p).record rows = [] := by
  have hcolumns : ∀ j ∈ p.joins, j.columns = [] := by
    rw [h.select, List.append_eq_nil_iff, List.flatMap_eq_nil_iff] at hselect
    exact fun j hj ↦ List.map_eq_nil_iff.1 (hselect.2 j hj)
  have hshown : p.shownRelations .root = [] := by
    refine List.filter_eq_nil_iff.2 fun j _ ↦ ?_
    rw [decide_eq_true_iff]
    rintro ⟨i, hi, hne, -⟩
    exact hne (hcolumns i hi)
  have hroot : p.rootColumns = [] := by rw [rootColumns, hselect]; rfl
  cases rows with
  | nil => rw [Shape.record]
  | cons first rest =>
    have hrecord := record_shapeAt h.isNested (n := .root) trivial first rest
    rw [hshown, columnsAt, hroot] at hrecord
    exact hrecord

/-- If nothing is selected then everything of the root is fetched, and the records are empty; they
have the columns of their rows only where there are none to have. -/
theorem carriesRows_iff_of_compile {name : String} (h : compile s name o = .ok p)
    (hselect : p.select = []) (rows : List Row) :
    (∀ d, ∃ page, p.selectStatement d = .ok page ∧ p.FetchesAll d page) ∧
    p.records rows = (p.recordRows rows).map (fun _ ↦ .table []) ∧
    (p.CarriesRows rows ↔
      ∀ group ∈ p.recordRows rows, ∀ row ∈ group.head?, ∀ c ∈ Keyed.keys row, '.' ∈ c.toList) := by
  obtain ⟨root, t, -, hc⟩ := compile_ok h
  have hrecords : p.records rows = (p.recordRows rows).map fun _ ↦ .table [] := by
    rw [records_eq_map]
    exact List.map_congr_left fun group _ ↦ congrArg Datum.table (hc.record_eq_nil hselect group)
  refine ⟨fun d ↦ ⟨_, hc.isBound.selectStatement d, fetchesAll_select hselect d⟩, hrecords, ?_⟩
  rw [CarriesRows, hrecords, List.forall₂_map_right_iff, List.forall₂_same]
  exact forall₂_congr fun group _ ↦ forall₂_congr fun row _ ↦ carries_empty

/-- Where keys are physical, something is selected. -/
theorem select_ne_nil_of_compile {name : String} (h : compile s name o = .ok p)
    (hs : s.check = .ok ()) (hkeys : s.KeysArePhysical) : p.select ≠ [] := by
  obtain ⟨root, t, hroot, hc⟩ := compile_ok h
  have hentity : (name, root) ∈ s.entities := Keyed.mem_of_get? (requireEntity_eq_ok.1 hroot)
  obtain ⟨c, key, hkey⟩ := List.exists_cons_of_ne_nil (s.primaryKey_ne_nil hs hentity)
  have hmem : c ∈ root.primaryKey := by simp [hkey]
  exact List.ne_nil_of_mem (hc.rootKey_mem hmem (hkeys name root hentity c hmem))

def undeclared : Schema :=
  .ofEntities [
    { name := "Payment", table := "payments", primaryKey := ["id"], columns := [], relations := []
      softDelete := none }]

def twoAmounts : List Row :=
  [[("id", .int 1), ("amount", .int 10)], [("id", .int 2), ("amount", .int 20)]]

theorem carriesRows_iff_of_compile_undeclared :
    ∃ p, compile undeclared "Payment" {} = .ok p ∧ p.select = [] ∧
      (∀ d, ∃ page, p.selectStatement d = .ok page ∧ p.FetchesAll d page) ∧
      p.records [[("net.amount", .int 10)]] = [.table []] ∧
      p.CarriesRows [[("net.amount", .int 10)]] := by
  have hplan : (compile undeclared "Payment" {}).toOption.map (fun p ↦ (p.select, p.hasToMany)) =
      some ([], false) := by
    decide +kernel
  obtain ⟨p, hp, hv⟩ := exists_ok_of_map hplan
  obtain ⟨hselect, hmany⟩ := Prod.mk.inj hv
  have hrows : p.recordRows [[("net.amount", .int 10)]] = [[[("net.amount", .int 10)]]] := by
    rw [recordRows, if_neg (by simp [hmany])]
    rfl
  obtain ⟨hfetches, hrecords, hcarries⟩ := carriesRows_iff_of_compile hp hselect _
  refine ⟨p, hp, hselect, hfetches, ?_, hcarries.2 ?_⟩
  · rw [hrecords, hrows]
    rfl
  · rw [hrows]
    decide

/-- All columns of two payments are fetched, and their records have none of them. -/
theorem records_of_undeclared_columns : undeclared.check = .ok () ∧
    ∃ p, compile undeclared "Payment" {} = .ok p ∧ p.select = [] ∧
      (∃ page, p.selectStatement .postgres = .ok page ∧
        page.sql = "SELECT \"payment\".* FROM \"payments\" AS \"payment\" " ++
          "ORDER BY \"payment\".\"id\" ASC LIMIT 10 OFFSET 0") ∧
      p.records twoAmounts = [.table [], .table []] ∧ ¬ p.CarriesRows twoAmounts := by
  refine ⟨rfl, ?_⟩
  have hplan : (compile undeclared "Payment" {}).toOption.map (fun p ↦
      (p.select, (p.selectStatement .postgres).toOption.map (·.sql), p.hasToMany,
        p.records twoAmounts)) =
      some ([], some ("SELECT \"payment\".* FROM \"payments\" AS \"payment\" " ++
        "ORDER BY \"payment\".\"id\" ASC LIMIT 10 OFFSET 0"),
        false, [.table [], .table []]) := by
    decide +kernel
  obtain ⟨p, hp, hv⟩ := exists_ok_of_map hplan
  simp only [Prod.mk.injEq] at hv
  obtain ⟨hselect, hsql, hmany, hrecords⟩ := hv
  refine ⟨p, hp, hselect, exists_ok_of_map hsql, hrecords, fun hcarries ↦ ?_⟩
  rw [CarriesRows, recordRows, if_neg (by simp [hmany]), hrecords] at hcarries
  obtain ⟨hfirst, -⟩ := List.forall₂_cons.1 hcarries
  have hdot := carries_empty.1 (hfirst _ rfl) "id" (by simp)
  exact absurd hdot (by decide)

end Plan

end Listing
