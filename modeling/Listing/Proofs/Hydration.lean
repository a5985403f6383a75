import Listing.Proofs.Flattening

namespace Listing

theorem cell_eq_null {row : Row} (h : ∀ e ∈ row, e.2 = .null) (o : String) :
    cell row o = .null := by
  rw [cell]
  cases hget : Keyed.get? row o with
  | none => rfl
  | some d => exact h _ (Keyed.mem_of_get? hget)

theorem cell_nullRow (p : Plan) (j : Join) (o : String) : cell (p.nullRow j) o = .null := by
  refine cell_eq_null (fun e he ↦ ?_) o
  obtain ⟨k, -, he⟩ := List.mem_flatMap.1 he
  obtain ⟨c, -, rfl⟩ := List.mem_map.1 he
  rfl

namespace Plan

variable {p : Plan} {n : Place} {s : Shape} {j : Join}

theorem bare_columns (p : Plan) (n : Place) :
    (p.bare n).columns = (p.columnsAt n).map fun c ↦ (n.output c, c) := by
  cases n with
  | root => rfl
  | joined j => rfl

theorem bare_key (hp : p.IsReversible) (hn : p.Has n) :
    (p.bare n).key = (p.keyAt n).map n.output := by
  cases n with
  | root => exact (List.map_id _).symm
  | joined j => exact Shape.keyOf_eq (hp.keyed j hn) (hp.keys _ hn)

theorem has_of_relation (hj : j ∈ n.relations p.joins) : p.Has (.joined j) :=
  (Place.mem_relations.1 hj).1

theorem columns_ne_nil (hp : p.IsReversible) (hj : j ∈ p.joins) : j.columns ≠ [] := by
  obtain ⟨c, key, hkey⟩ := List.exists_cons_of_ne_nil (hp.keyed j hj)
  have hc : c ∈ j.columns := hp.keys (.joined j) hj c (by simp [keyAt, hkey])
  exact List.ne_nil_of_mem hc

theorem not_dot_mem_column (hp : p.IsReversible) (hn : p.Has n) {c : String}
    (hc : c ∈ p.columnsAt n) : '.' ∉ c.toList := by
  cases n with
  | root => simpa using (List.mem_filter.1 hc).2
  | joined j => exact hp.plain j hn c hc

theorem Describes.owns (hp : p.IsReversible) (h : p.Describes p.joins n s) (hn : n = .joined j)
    (hj : j ∈ p.joins) : ∀ o ∈ s.outputs, j.Owns o := by
  induction h generalizing j with
  | intro n child _ ih =>
    subst hn
    intro o ho
    have hown : ∀ c ∈ j.columns, j.Owns ((Place.joined j).output c) := fun c hc ↦
      Join.owns_output (hp.plain j hj c hc) (Path.passes_refl j.path)
    have hn : p.Has (.joined j) := hj
    rw [Shape.outputs, bare_columns, bare_key hp hn, List.mem_append, List.mem_append] at ho
    rcases ho with (ho | ho) | ho
    · simp only [List.map_map, List.mem_map, Function.comp_apply] at ho
      obtain ⟨c, hc, rfl⟩ := ho
      exact hown c hc
    · obtain ⟨c, hc, rfl⟩ := List.mem_map.1 ho
      exact hown c (hp.keys (.joined j) hj c hc)
    · obtain ⟨e, he, ho⟩ := Shape.mem_outputsOf.1 ho
      obtain ⟨k, hk, rfl⟩ := List.mem_map.1 he
      exact (ih k hk rfl (has_of_relation hk) o ho).of_relation hk

theorem Describes.hasContent (hp : p.IsReversible) (hj : j ∈ p.joins)
    (h : p.Describes p.joins (.joined j) s) : s.hasContent := by
  obtain ⟨hcolumns, -⟩ := h.own
  obtain ⟨columns, key, many, children⟩ := s
  have hne : columns ≠ [] := by
    rw [bare_columns] at hcolumns
    simp only [Shape.columns] at hcolumns
    simpa [hcolumns, columnsAt] using columns_ne_nil hp hj
  simp [Shape.hasContent, hne]

end Plan

namespace Instance

open Plan

variable {p : Plan} {n : Place} {s : Shape} {i : Instance} {j : Join}

theorem Fits.key_isKey (h : i.Fits p n) : ∀ d ∈ i.key p n, d.isKey := by
  obtain ⟨n, value, related, hkey, -⟩ := h
  intro d hd
  obtain ⟨c, hc, rfl⟩ := List.mem_map.1 hd
  exact hkey c hc

theorem keyValues_rows (hp : p.IsReversible) (hn : p.Has n) {row : Row}
    (hrow : row ∈ i.rows p n) : Groups.keyValues (p.bare n).key row = i.key p n := by
  rw [bare_key hp hn, Groups.keyValues, List.map_map]
  exact List.map_congr_left fun c hc ↦ cell_rows hrow (hp.keys n hn c hc)

theorem keyText_injOn {is : List Instance} (hi : ∀ i ∈ is, i.Fits p n)
    (hdistinct : (is.map (key p n)).Nodup) :
    (is.map fun i ↦ Json.render (.list (i.key p n))).Nodup := by
  have hexact : ∀ i ∈ is, (Datum.list (i.key p n)).isExact := by
    intro i h
    rw [Datum.isExact, Datum.allExact_iff]
    exact fun d hd ↦ Datum.isExact_of_isKey ((hi i h).key_isKey d hd)
  refine List.Nodup.map_on (fun i h i' h' htext ↦ ?_) (List.Nodup.of_map _ hdistinct)
  have hkey := Datum.list.inj (Json.render_injective (hexact i h) (hexact i' h') htext)
  exact List.inj_on_of_nodup_map hdistinct h h' hkey

/-- Instances with distinct keys are told apart by their rows. -/
theorem toLists_ofRows_rows (hp : p.IsReversible) (hn : p.Has n) {is : List Instance}
    (hi : ∀ i ∈ is, i.Fits p n) (hdistinct : (is.map (key p n)).Nodup) (skipNull : Bool)
    (hskip : skipNull → p.keyAt n ≠ []) :
    (Groups.ofRows (p.bare n).key skipNull (is.flatMap (rows p n))).toLists =
      is.map (rows p n) := by
  refine Groups.toLists_ofRows_flatMap (fun i _ ↦ rows_ne_nil p n i) (fun i h row hrow ↦ ?_)
    (keyText_injOn hi hdistinct)
  have hvalues := keyValues_rows hp hn hrow
  refine ⟨?_, by rw [Groups.keyText, hvalues]⟩
  rw [Groups.isGrouped, hvalues, Bool.not_eq_true', Bool.and_eq_false_iff]
  cases skipNull with
  | false => exact .inl rfl
  | true =>
    obtain ⟨c, rest, hkey⟩ := List.exists_cons_of_ne_nil (hskip rfl)
    have hmem : i.value c ∈ i.key p n := List.mem_map_of_mem (by simp [hkey])
    refine .inr (List.all_eq_false.2 ⟨_, hmem, ?_⟩)
    simp [Datum.isNull_of_isKey ((hi i h).key_isKey _ hmem)]

theorem isAbsent_nullRow (hp : p.IsReversible) (hj : j ∈ p.joins)
    (hs : p.Describes p.joins (.joined j) s) : s.isAbsent (p.nullRow j) := by
  obtain ⟨hcolumns, -⟩ := hs.own
  rw [Shape.isAbsent, hcolumns, bare_columns]
  simpa [columnsAt, cell_nullRow, Datum.isNull] using columns_ne_nil hp hj

theorem isAbsent_rows (hp : p.IsReversible) (hj : j ∈ p.joins)
    (hs : p.Describes p.joins (.joined j) s) (hi : i.Fits p (.joined j)) {row : Row}
    (hrow : row ∈ i.rows p (.joined j)) : s.isAbsent row = false := by
  obtain ⟨hcolumns, -⟩ := hs.own
  obtain ⟨c, rest, hkey⟩ := List.exists_cons_of_ne_nil (hp.keyed j hj)
  have hc : c ∈ p.columnsAt (.joined j) := hp.keys (.joined j) hj c (by simp [keyAt, hkey])
  have hvalue : (i.value c).isNull = false :=
    Datum.isNull_of_isKey (hi.key_isKey _ (List.mem_map_of_mem (by simp [keyAt, hkey])))
  rw [Shape.isAbsent, hcolumns, bare_columns, Bool.and_eq_false_iff]
  refine .inr (List.all_eq_false.2 ⟨_, List.mem_map_of_mem hc, ?_⟩)
  simp [cell_rows hrow hc, hvalue]

theorem relationValue_nullRow (hp : p.IsReversible) (hj : j ∈ p.joins)
    (hs : p.Describes p.joins (.joined j) s) :
    Shape.relationValue s s.record (p.nullRow j) [p.nullRow j] = nest j.kind [] := by
  have hmany : s.many = j.kind.isMany := hs.own.2.2
  rw [Shape.relationValue, nest, hmany]
  split
  · have hnone : Groups.isGrouped s.key true (p.nullRow j) = false := by
      simp [Groups.isGrouped, Groups.keyValues, cell_nullRow, Datum.isNull]
    simp [Groups.toLists_ofRows, hnone]
  · rw [if_pos (isAbsent_nullRow hp hj hs)]
    rfl

theorem relationValue_rows (hp : p.IsReversible) (hj : j ∈ p.joins)
    (hs : p.Describes p.joins (.joined j) s) {is : List Instance}
    (hi : ∀ i ∈ is, i.Fits p (.joined j))
    (hdistinct : Distinct p j is)
    (hrecord : ∀ i ∈ is, s.record (i.rows p (.joined j)) = i.fields p (.joined j))
    {first : Row} {rest : List Row} (hrows : p.orNulls j (joinedRows p j is) = first :: rest) :
    Shape.relationValue s s.record first (first :: rest) =
      nest j.kind (joinedFields p j is) := by
  rw [joinedRows_eq] at hrows
  rw [joinedFields_eq]
  cases is with
  | nil =>
    obtain ⟨rfl, rfl⟩ : p.nullRow j = first ∧ [] = rest := by simpa [orNulls] using hrows
    exact relationValue_nullRow hp hj hs
  | cons i is =>
    have hmany : s.many = j.kind.isMany := hs.own.2.2
    have hjoined : (i :: is).flatMap (rows p (.joined j)) = first :: rest := by
      rwa [orNulls, if_neg] at hrows
      simp [rows_ne_nil]
    rw [Distinct] at hdistinct
    rw [Shape.relationValue, nest, hmany]
    by_cases hkind : j.kind.isMany
    · rw [if_pos hkind] at hdistinct
      rw [if_pos hkind, if_pos hkind]
      have hgroups := toLists_ofRows_rows (n := .joined j) hp hj hi hdistinct true fun _ ↦
        hp.keyed j hj
      rw [← hjoined, hs.own.2.1, hgroups, List.map_map]
      congr 1
      exact List.map_congr_left fun i hi ↦ congrArg Datum.table (hrecord i hi)
    · rw [if_neg hkind] at hdistinct
      rw [if_neg hkind, if_neg hkind]
      obtain rfl : is = [] := by simpa using hdistinct
      have hrows : i.rows p (.joined j) = first :: rest := by simpa using hjoined
      have hfirst : first ∈ i.rows p (.joined j) := by simp [hrows]
      rw [isAbsent_rows hp hj hs (hi i List.mem_cons_self) hfirst, ← hrows,
        hrecord i List.mem_cons_self]
      rfl

theorem relations_pairwise (hp : p.IsReversible) (n : Place) :
    (n.relations p.joins).Pairwise fun j k ↦ j.path ≠ k.path :=
  (List.pairwise_map.1 (hp.nested.nodup_leaves n)).imp fun hne hpath ↦
    hne (congrArg Path.leaf hpath)

theorem factors_apart (hp : p.IsReversible) {related : String → List Instance}
    {child : Join → Shape}
    (hfits : ∀ j ∈ n.relations p.joins, ∀ i ∈ related j.path.leaf, i.Fits p (.joined j))
    (hchild : ∀ j ∈ n.relations p.joins, p.Describes p.joins (.joined j) (child j))
    {j k : Join} (hj : j ∈ n.relations p.joins) (hk : k ∈ n.relations p.joins)
    (hjk : j.path ≠ k.path) : ∀ row ∈ p.orNulls k (joinedRows p k (related k.path.leaf)),
      ∀ o ∈ (child j).outputs, o ∉ Keyed.keys row := by
  intro row hrow o ho hkeys
  have hrows := owns_of_mem_orNulls hp (fun i hi ↦
    owns_of_mem_rows hp (hfits k hk i hi) rfl (has_of_relation hk)) hrow o hkeys
  exact hjk (Join.Owns.path_eq hj hk ((hchild j hj).owns hp rfl (has_of_relation hj) o ho) hrows)

theorem ownColumns_rows (hp : p.IsReversible) (hn : p.Has n) {row : Row}
    (hrow : row ∈ i.rows p n) : Shape.ownColumns (p.bare n).columns row =
      (p.columnsAt n).map fun c ↦ (c, i.value c) := by
  have hcells : (p.bare n).columns.map (fun c ↦ (c.2, cell row c.1)) =
      (p.columnsAt n).map fun c ↦ (c, i.value c) := by
    rw [bare_columns, List.map_map]
    exact List.map_congr_left fun c hc ↦ congrArg (Prod.mk c) (cell_rows hrow hc)
  have hkeys : (Keyed.keys ((p.columnsAt n).map fun c ↦ (c, i.value c))) = p.columnsAt n := by
    simp [Keyed.keys, Function.comp_def]
  rw [Shape.ownColumns]
  refine (congrArg Keyed.ofEntries hcells).trans (Keyed.ofEntries_eq_self ?_)
  rw [hkeys]
  exact hp.distinct n hn

theorem names_nodup (hp : p.IsReversible) (hn : p.Has n) :
    (p.columnsAt n ++ (n.relations p.joins).map (·.path.leaf)).Nodup := by
  refine List.nodup_append.2 ⟨hp.distinct n hn, hp.nested.nodup_leaves n, ?_⟩
  rintro c hc _ hleaf rfl
  obtain ⟨j, hj, rfl⟩ := List.mem_map.1 hleaf
  exact hp.apart n hn j hj hc

/-- For a relation the rows of an instance are as good as the rows joined for it. -/
theorem eraseDups_restrict_rows (hp : p.IsReversible) (hn : p.Has n)
    (value : String → Datum) {related : String → List Instance} {child : Join → Shape}
    (hfits : ∀ j ∈ n.relations p.joins, ∀ i ∈ related j.path.leaf, i.Fits p (.joined j))
    (hchild : ∀ j ∈ n.relations p.joins, p.Describes p.joins (.joined j) (child j))
    (hj : j ∈ n.relations p.joins) :
    ((rows p n (mk value related)).map (Row.restrict (child j).outputs)).eraseDups =
      ((p.orNulls j (joinedRows p j (related j.path.leaf))).map
        (Row.restrict (child j).outputs)).eraseDups := by
  have hown : ∀ row, Row.restrict (child j).outputs (p.ownRow n value ++ row) =
      Row.restrict (child j).outputs row := by
    refine fun row ↦ restrict_append_right fun o ho hkeys ↦ ?_
    obtain ⟨c, hc, rfl⟩ := keys_ownRow hkeys
    exact Join.not_owns_output hj (not_dot_mem_column hp hn hc)
      ((hchild j hj).owns hp rfl (has_of_relation hj) _ ho)
  have happly := eraseDups_product
    (fun j ↦ p.orNulls j (joinedRows p j (related j.path.leaf)))
    (fun j ↦ (child j).outputs) (fun _ _ ↦ orNulls_ne_nil _ _ _) ?_ hj
  · rw [rows_eq, List.map_map]
    simpa only [Function.comp_def, hown] using happly
  · refine (relations_pairwise hp n).imp_of_mem fun hj hk hjk ↦ ⟨?_, ?_⟩
    · exact factors_apart hp hfits hchild hj hk hjk
    · exact factors_apart hp hfits hchild hk hj (Ne.symm hjk)

/-- The rows of an instance amount to the instance. -/
theorem record_rows (hp : p.IsReversible) (hi : i.Fits p n) (hn : p.Has n)
    (hs : p.Describes p.joins n s) : s.record (i.rows p n) = i.fields p n := by
  induction hi generalizing s with
  | intro n value related hkey hdistinct hfits ih =>
    obtain ⟨n, child, hchild⟩ := hs
    obtain ⟨first, rest, hrows⟩ := List.exists_cons_of_ne_nil (rows_ne_nil p n (mk value related))
    have hfirst : first ∈ rows p n (mk value related) := by simp [hrows]
    have hown := ownColumns_rows hp hn hfirst
    rw [hrows, Shape.record, hown, Shape.withRelations_eq_append, fields, List.map_map]
    · congr 1
      refine List.map_congr_left fun j hj ↦ congrArg (Prod.mk j.path.leaf) ?_
      have hjoin := has_of_relation hj
      obtain ⟨row, others, hfactor⟩ := List.exists_cons_of_ne_nil
        (orNulls_ne_nil p j (joinedRows p j (related j.path.leaf)))
      have hfirsts := eraseDups_restrict_rows hp hn value hfits hchild hj
      rw [hrows, hfactor] at hfirsts
      rw [Shape.relationValue_eq_of_firsts hfirsts]
      exact relationValue_rows hp hjoin (hchild j hj) (hfits j hj) (hdistinct j hj)
        (fun i hi ↦ ih j hj i hi hjoin (hchild j hj)) hfactor
    · intro c hc
      obtain ⟨j, hj, rfl⟩ := List.mem_map.1 hc
      exact (hchild j hj).hasContent hp (has_of_relation hj)
    · have hnames := names_nodup hp hn
      simpa [Keyed.keys, Function.comp_def] using hnames

theorem length_orNulls {p : Plan} {j : Join} {rows : List Row} (h : rows.length ≤ 1) :
    (p.orNulls j rows).length = 1 := by
  cases rows with
  | nil => rfl
  | cons row rows => exact le_antisymm h (by simp [Plan.orNulls])

theorem length_rows (hkinds : ∀ j ∈ p.joins, j.kind.isMany = false) (hi : i.Fits p n) :
    (i.rows p n).length = 1 := by
  induction hi with
  | intro n value related _ hdistinct _ ih =>
    rw [rows_eq, List.length_map]
    refine length_product fun rows hrows ↦ ?_
    obtain ⟨j, hj, rfl⟩ := List.mem_map.1 hrows
    have hfew : (related j.path.leaf).length ≤ 1 := by
      have hj' := hdistinct j hj
      rwa [Distinct, if_neg (by simp [hkinds j (has_of_relation hj)])] at hj'
    refine length_orNulls ?_
    rw [joinedRows_eq]
    cases his : related j.path.leaf with
    | nil => simp
    | cons k is =>
      rw [his] at hfew
      obtain rfl : is = [] := by simpa using hfew
      simp [ih j hj k (by simp [his])]

end Instance

namespace Plan

variable {p : Plan}

theorem isMany_of_not_hasToMany (hp : p.IsReversible) (h : p.hasToMany = false) :
    ∀ j ∈ p.joins, j.kind.isMany = false := by
  intro j hj
  by_contra hkind
  have hmany := (hp.many j hj).2 ⟨j, hj, Path.passes_refl j.path, by simpa using hkind⟩
  exact List.any_eq_false.1 h j hj hmany

/-- The rows of instances with distinct keys amount to these instances, in their order. -/
theorem records_flatMap_rows (hp : p.IsReversible) {is : List Instance}
    (hi : ∀ i ∈ is, i.Fits p .root) (hdistinct : (is.map (Instance.key p .root)).Nodup) :
    p.records (is.flatMap (Instance.rows p .root)) =
      is.map fun i ↦ .table (i.fields p .root) := by
  have hroot : p.Has .root := trivial
  have hs := describes_ofPlan hp.nested
  have hrecord : ∀ i ∈ is, (Shape.ofPlan p).record (i.rows p .root) = i.fields p .root :=
    fun i h ↦ Instance.record_rows hp (hi i h) hroot hs
  rw [records, Shape.records]
  cases hmany : p.hasToMany with
  | true =>
    rw [if_pos rfl, hs.own.2.1, Instance.toLists_ofRows_rows hp hroot hi hdistinct false (by simp),
      List.map_map, List.map_map]
    exact List.map_congr_left fun i h ↦ congrArg Datum.table (hrecord i h)
  | false =>
    have hkinds := isMany_of_not_hasToMany hp hmany
    rw [if_neg (by simp), List.map_map, List.map_flatMap, List.map_eq_flatMap]
    refine List.flatMap_congr fun i h ↦ ?_
    obtain ⟨row, hrow⟩ := List.length_eq_one_iff.1 (Instance.length_rows hkinds (hi i h))
    have hone := hrecord i h
    rw [hrow] at hone ⊢
    simp [hone]

def joinOn (path : Path) (kind : RelationKind) (columns : List String) : Join :=
  { path, name := path, parentName := "", table := "", kind, many := kind.isMany
    mode := .projected, on := [], softDelete := none, link := none, columns, primaryKey := ["id"] }

def employeeJoin : Join := joinOn "employee" .manyToOne ["id", "role"]

def tagsJoin : Join := joinOn "tags" .manyToMany ["id", "label"]

def personJoin : Join := joinOn "employee.person" .manyToOne ["name", "id"]

def paid : Plan :=
  { rootEntity := "Payment", rootTable := "payments", rootName := "payment", primaryKey := ["id"]
    joins := [employeeJoin, tagsJoin, personJoin]
    select := [.ofRoot "payment" "id", .ofRoot "payment" "amount"]
    predicates := [], bindings := [], order := [], window := .ofPage 1 10 }

theorem paid_isNested : IsNested paid.joins := by
  have hparents : employeeJoin.path.parent? = none ∧ tagsJoin.path.parent? = none ∧
      personJoin.path.parent? = some employeeJoin.path := by
    decide +kernel
  obtain ⟨hemployee, htags, hperson⟩ := hparents
  refine ⟨by decide, fun before j after hsplit q hq ↦ ?_⟩
  rcases before with _ | ⟨i, _ | ⟨k, _ | ⟨l, before⟩⟩⟩
  · obtain ⟨rfl, -⟩ := List.cons.inj hsplit
    simp [hemployee] at hq
  · simp only [paid, List.cons_append, List.nil_append, List.cons.injEq] at hsplit
    obtain ⟨-, rfl, -⟩ := hsplit
    simp [htags] at hq
  · simp only [paid, List.cons_append, List.nil_append, List.cons.injEq] at hsplit
    obtain ⟨rfl, -, rfl, -⟩ := hsplit
    obtain rfl := Option.some.inj (hperson.symm.trans hq)
    simp
  · simp [paid] at hsplit

theorem paid_isReversible : paid.IsReversible := by
  have every {motive : Place → Prop} (root : motive .root)
      (joined : ∀ j ∈ paid.joins, motive (.joined j)) : ∀ n, paid.Has n → motive n := by
    rintro (_ | j) hn
    · exact root
    · exact joined j hn
  exact ⟨paid_isNested, every (by decide) (by decide), by decide, by decide,
    every (by decide) (by decide), every (by decide +kernel) (by decide +kernel), by decide +kernel⟩

def instanceOf (values : Keyed Datum) (related : Keyed (List Instance)) : Instance :=
  .mk (fun c ↦ (values.get? c).getD .null) fun name ↦ (related.get? name).getD []

def paidInstances : List Instance :=
  [instanceOf [("id", .int 1), ("amount", .int 10)]
    [("employee", [instanceOf [("id", .int 5), ("role", .text "ops")]
      [("person", [instanceOf [("id", .int 9), ("name", .text "Ana")] []])]]),
     ("tags", [instanceOf [("id", .int 10), ("label", .text "urgent")] [],
       instanceOf [("id", .int 11), ("label", .text "payroll")] []])],
   instanceOf [("id", .int 2), ("amount", .int 20)] []]

theorem records_flatMap_rows_paid :
    paid.records (paidInstances.flatMap (Instance.rows paid .root)) =
      [.table [("id", .int 1), ("amount", .int 10),
        ("employee", .table [("id", .int 5), ("role", .text "ops"),
          ("person", .table [("name", .text "Ana"), ("id", .int 9)])]),
        ("tags", .list [.table [("id", .int 10), ("label", .text "urgent")],
          .table [("id", .int 11), ("label", .text "payroll")]])],
       .table [("id", .int 2), ("amount", .int 20), ("employee", .null), ("tags", .list [])]] := by
  have hfits : paidInstances.all (Instance.fits paid .root) := by decide +kernel
  rw [records_flatMap_rows paid_isReversible
    (fun i hi ↦ .of_fits (List.all_eq_true.1 hfits i hi)) (by decide +kernel)]
  decide +kernel

end Plan

end Listing
