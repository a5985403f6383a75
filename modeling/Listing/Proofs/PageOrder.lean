import Listing.Proofs.Ordering
import Listing.Proofs.RootKeys

namespace Listing

namespace Plan

variable {p : Plan}

/-- The columns of the root key that are not in the order of the plan. They decide between what is
equal there. -/
def keyOrder (p : Plan) : List OrderBy :=
  (p.rootKeys.eraseDups.filter (!(p.order.map (·.column)).contains ·)).map fun c ↦ ⟨c, .asc⟩

theorem fullOrder_eq (hmany : p.hasToMany) : Draft.fullOrder p = p.order ++ p.keyOrder := by
  rw [Draft.fullOrder, keyOrder, if_pos hmany]

/-- What the statement of a plan orders by: rows by columns, and page keys by an aggregate of each
of them. -/
structure SortsBy (p : Plan) (orders : List OrderBy) : Prop where
  full : Draft.fullOrder p = orders
  rows : Draft.ordering p false = .word " ORDER BY " :: Draft.separated ", " (orders.map fun o ↦
    Draft.column o.column ++ [.word " ", .word o.order.sql])
  pages : Draft.ordering p true = .word " ORDER BY " :: Draft.separated ", " (orders.map fun o ↦
    .word o.aggregate.sql ::
      (Draft.column o.column ++ [.word ")", .word " ", .word o.order.sql]))

theorem sortsBy (hmany : p.hasToMany) {b : OrderBy} (horder : p.order = [b]) :
    p.SortsBy (b :: p.keyOrder) := by
  have hfull : Draft.fullOrder p = b :: p.keyOrder := by
    rw [fullOrder_eq hmany, horder]
    rfl
  refine ⟨hfull, ?_, ?_⟩
  · rw [Draft.ordering, hfull]
    rfl
  · rw [Draft.ordering, hfull]
    simp only [← Draft.ordered_true]

theorem column_mem_of_mem_keyOrder {o : OrderBy} (ho : o ∈ p.keyOrder) : o.column ∈ p.rootKeys := by
  obtain ⟨c, hc, rfl⟩ := List.mem_map.1 ho
  exact List.mem_eraseDups.1 (List.mem_of_mem_filter hc)

theorem exists_mem_fullOrder (hmany : p.hasToMany) {c : ColumnRef} (hc : c ∈ p.rootKeys) :
    ∃ o ∈ Draft.fullOrder p, o.column = c := by
  rw [fullOrder_eq hmany]
  by_cases hordered : c ∈ p.order.map (·.column)
  · obtain ⟨o, ho, rfl⟩ := List.mem_map.1 hordered
    exact ⟨o, List.mem_append_left _ ho, rfl⟩
  · refine ⟨⟨c, .asc⟩, List.mem_append_right _ (List.mem_map_of_mem (List.mem_filter.2 ?_)), rfl⟩
    simpa [hc] using hordered

theorem rootKey_eq {α : Type} {r r' : JoinedRow α} (hmany : p.hasToMany)
    (h : ∀ o ∈ Draft.fullOrder p, o.column ∈ p.rootKeys → r o.column = r' o.column) :
    p.rootKey r = p.rootKey r' := by
  refine List.map_congr_left fun c hc ↦ ?_
  obtain ⟨o, ho, rfl⟩ := exists_mem_fullOrder hmany hc
  exact h o ho hc

variable {V : Type} [LinearOrder V] {rows sorted : List (JoinedRow (WithTop V))}
  {keys : List (List (WithTop V))} {k k' : List (WithTop V)} {r r' : JoinedRow (WithTop V)}
  {b : OrderBy} {a a' : WithTop V}

def rowCell (o : OrderBy) (r : JoinedRow (WithTop V)) : WithTop V := r o.column

def cells (p : Plan) (rows : List (JoinedRow (WithTop V))) (c : ColumnRef)
    (k : List (WithTop V)) : List (WithTop V) :=
  (rows.filter fun r ↦ p.rootKey r = k).map fun r ↦ r c

def groupCell (p : Plan) (rows : List (JoinedRow (WithTop V))) (o : OrderBy)
    (k : List (WithTop V)) : WithTop V :=
  o.aggregate.of (p.cells rows o.column k)

/-- The rows in the order of the rows of the statement. -/
structure IsRowOrder (p : Plan) (rows sorted : List (JoinedRow (WithTop V))) : Prop where
  perm : sorted.Perm rows
  pairwise : sorted.Pairwise (Precedes rowCell (Draft.fullOrder p))

/-- The root keys of the rows in the order of the page keys of the statement. -/
structure IsPageOrder (p : Plan) (rows : List (JoinedRow (WithTop V)))
    (keys : List (List (WithTop V))) : Prop where
  perm : keys.Perm (rows.map p.rootKey).eraseDups
  pairwise : keys.Pairwise (Precedes (p.groupCell rows) (Draft.fullOrder p))

theorem exists_isRowOrder (p : Plan) (rows : List (JoinedRow (WithTop V))) :
    ∃ sorted, p.IsRowOrder rows sorted := by
  obtain ⟨sorted, hperm, hpairwise⟩ := Precedes.exists_sorted rowCell (Draft.fullOrder p) rows
  exact ⟨sorted, hperm, hpairwise⟩

theorem exists_isPageOrder (p : Plan) (rows : List (JoinedRow (WithTop V))) :
    ∃ keys, p.IsPageOrder rows keys := by
  obtain ⟨keys, hperm, hpairwise⟩ :=
    Precedes.exists_sorted (p.groupCell rows) (Draft.fullOrder p) (rows.map p.rootKey).eraseDups
  exact ⟨keys, hperm, hpairwise⟩

theorem mem_cells {c : ColumnRef} {v : WithTop V} :
    v ∈ p.cells rows c k ↔ ∃ r ∈ rows, p.rootKey r = k ∧ r c = v := by
  simp [cells, and_assoc]

theorem cells_ne_nil (c : ColumnRef) (hk : k ∈ rows.map p.rootKey) : p.cells rows c k ≠ [] := by
  obtain ⟨r, hr, rfl⟩ := List.mem_map.1 hk
  exact List.ne_nil_of_mem (mem_cells.2 ⟨r, hr, rfl, rfl⟩)

theorem groupCell_eq (hr : r ∈ rows) {o : OrderBy} (ho : o.column ∈ p.rootKeys) :
    p.groupCell rows o (p.rootKey r) = r o.column := by
  refine o.aggregate.of_const (cells_ne_nil _ (List.mem_map_of_mem hr)) fun v hv ↦ ?_
  obtain ⟨r', -, hkey, rfl⟩ := mem_cells.1 hv
  exact List.map_inj_left.1 hkey o.column ho

def Leads (p : Plan) (rows : List (JoinedRow (WithTop V))) (k k' : List (WithTop V)) : Prop :=
  ∃ r ∈ rows, p.rootKey r = k ∧
    ∀ r' ∈ rows, p.rootKey r' = k' → Precedes rowCell (Draft.fullOrder p) r r'

theorem Leads.antisymm (hmany : p.hasToMany) (h : p.Leads rows k k') (h' : p.Leads rows k' k) :
    k = k' := by
  obtain ⟨r, hr, rfl, hfirst⟩ := h
  obtain ⟨r', hr', rfl, hfirst'⟩ := h'
  have heq := (hfirst r' hr' rfl).antisymm (hfirst' r hr rfl)
  exact rootKey_eq hmany fun o ho _ ↦ heq o ho

theorem pageKey_antisymm (hmany : p.hasToMany) (hk : k ∈ rows.map p.rootKey)
    (hk' : k' ∈ rows.map p.rootKey)
    (h : Precedes (p.groupCell rows) (Draft.fullOrder p) k k')
    (h' : Precedes (p.groupCell rows) (Draft.fullOrder p) k' k) : k = k' := by
  obtain ⟨r, hr, rfl⟩ := List.mem_map.1 hk
  obtain ⟨r', hr', rfl⟩ := List.mem_map.1 hk'
  refine rootKey_eq hmany fun o ho hkey ↦ ?_
  rw [← groupCell_eq hr hkey, ← groupCell_eq hr' hkey]
  exact h.antisymm h' o ho

theorem precedes_keyOrder (hr : r ∈ rows) (hr' : r' ∈ rows) :
    Precedes rowCell p.keyOrder r r' ↔
      Precedes (p.groupCell rows) p.keyOrder (p.rootKey r) (p.rootKey r') :=
  Precedes.congr (fun _ ho ↦ (groupCell_eq hr (column_mem_of_mem_keyOrder ho)).symm)
    fun _ ho ↦ (groupCell_eq hr' (column_mem_of_mem_keyOrder ho)).symm

theorem leads_iff (hmany : p.hasToMany) (horder : p.order = [b])
    (ha : b.order.IsLead (p.cells rows b.column k) a)
    (ha' : b.order.IsLead (p.cells rows b.column k') a') :
    p.Leads rows k k' ↔
      b.order.Before a a' ∨ a = a' ∧ Precedes (p.groupCell rows) p.keyOrder k k' := by
  rw [Leads, (sortsBy hmany horder).full]
  -- the cell of a first row is a leading one, and the rows of one key are alike in the rest
  constructor
  · rintro ⟨r, hr, rfl, hfirst⟩
    obtain ⟨r', hr', rfl, rfl⟩ := mem_cells.1 ha'.1
    have hlead := ha.2 (r b.column) (mem_cells.2 ⟨r, hr, rfl, rfl⟩)
    rcases hfirst r' hr' rfl with hbefore | ⟨heq, hkeys⟩
    · rcases hlead with rfl | hlead
      · exact .inl hbefore
      · exact .inl (hlead.trans hbefore)
    · rcases hlead with rfl | hlead
      · exact .inr ⟨heq, (precedes_keyOrder hr hr').1 hkeys⟩
      · exact .inl ((show r b.column = r' b.column from heq) ▸ hlead)
  · intro h
    obtain ⟨r, hr, rfl, rfl⟩ := mem_cells.1 ha.1
    refine ⟨r, hr, rfl, ?_⟩
    rintro r' hr' rfl
    have hlead := ha'.2 (r' b.column) (mem_cells.2 ⟨r', hr', rfl, rfl⟩)
    rcases h with hbefore | ⟨heq, hkeys⟩
    · rcases hlead with rfl | hlead
      · exact .inl hbefore
      · exact .inl (hbefore.trans hlead)
    · rcases hlead with rfl | hlead
      · exact .inr ⟨heq, (precedes_keyOrder hr hr').2 hkeys⟩
      · exact .inl (show b.order.Before (r b.column) (r' b.column) from heq ▸ hlead)

theorem leads_total (hmany : p.hasToMany) (horder : p.order = [b]) (hk : k ∈ rows.map p.rootKey)
    (hk' : k' ∈ rows.map p.rootKey) : p.Leads rows k k' ∨ p.Leads rows k' k := by
  obtain ⟨a, ha⟩ := b.order.exists_isLead (cells_ne_nil b.column hk)
  obtain ⟨a', ha'⟩ := b.order.exists_isLead (cells_ne_nil b.column hk')
  rw [leads_iff hmany horder ha ha', leads_iff hmany horder ha' ha]
  rcases b.order.before_or_eq a a' with h | rfl | h
  · exact .inl (.inl h)
  · exact (Precedes.total _ p.keyOrder k k').imp (.inr ⟨rfl, ·⟩) (.inr ⟨rfl, ·⟩)
  · exact .inr (.inl h)

/-- Some rows of a root key have a value in a column, and some have none. -/
def IsMixed (p : Plan) (rows : List (JoinedRow (WithTop V))) (c : ColumnRef)
    (k : List (WithTop V)) : Prop :=
  ⊤ ∈ p.cells rows c k ∧ ∃ v ∈ p.cells rows c k, v ≠ ⊤

/-- Where a column descends pages have each mixed key in the place where its rows without a value
are: before all keys that have no such rows, and between the others by the key itself. -/
def PlacesMixed (p : Plan) (rows : List (JoinedRow (WithTop V))) (c : ColumnRef) : Prop :=
  ∀ k ∈ rows.map p.rootKey, ∀ k' ∈ rows.map p.rootKey, k ≠ k' → p.IsMixed rows c k →
    (Precedes (p.groupCell rows) (Draft.fullOrder p) k k' ↔
      ⊤ ∉ p.cells rows c k' ∨ Precedes (p.groupCell rows) p.keyOrder k k')

theorem isLead_groupCell (hk : k ∈ rows.map p.rootKey)
    (h : b.order = .desc → ¬ p.IsMixed rows b.column k) :
    b.order.IsLead (p.cells rows b.column k) (p.groupCell rows b k) := by
  have hne := cells_ne_nil b.column hk
  rw [groupCell, OrderBy.aggregate]
  cases hb : b.order with
  | asc => exact SortOrder.isLead_min hne
  | desc =>
    refine SortOrder.isLead_max hne (or_iff_not_imp_left.2 fun htop v hv ↦ ?_)
    by_contra hvalue
    exact h hb ⟨not_not.1 htop, v, hv, hvalue⟩

theorem pageOrder_iff_leads (hmany : p.hasToMany) (horder : p.order = [b])
    (hk : k ∈ rows.map p.rootKey) (hk' : k' ∈ rows.map p.rootKey)
    (h : b.order = .desc → ¬ p.IsMixed rows b.column k ∧ ¬ p.IsMixed rows b.column k') :
    Precedes (p.groupCell rows) (Draft.fullOrder p) k k' ↔ p.Leads rows k k' := by
  rw [leads_iff hmany horder (isLead_groupCell hk fun hb ↦ (h hb).1)
    (isLead_groupCell hk' fun hb ↦ (h hb).2), (sortsBy hmany horder).full]
  rfl

theorem leads_iff_of_mixed (hmany : p.hasToMany) (horder : p.order = [b]) (hb : b.order = .desc)
    (hk : p.IsMixed rows b.column k) (hk' : k' ∈ rows.map p.rootKey) : p.Leads rows k k' ↔
      ⊤ ∉ p.cells rows b.column k' ∨ Precedes (p.groupCell rows) p.keyOrder k k' := by
  have hlead : b.order.IsLead (p.cells rows b.column k) ⊤ := hb ▸ SortOrder.isLead_top hk.1
  by_cases htop : ⊤ ∈ p.cells rows b.column k'
  · rw [leads_iff hmany horder hlead (hb ▸ SortOrder.isLead_top htop)]
    simp [htop, SortOrder.before_irrefl]
  · have hlead' := isLead_groupCell hk' fun _ hmixed ↦ htop hmixed.1
    rw [leads_iff hmany horder hlead hlead']
    refine iff_of_true (.inl ?_) (.inl htop)
    rw [hb]
    exact lt_top_iff_ne_top.2 fun heq ↦ htop (heq ▸ hlead'.1)

theorem placesMixed_iff (hmany : p.hasToMany) (horder : p.order = [b]) :
    (∀ k ∈ rows.map p.rootKey, ∀ k' ∈ rows.map p.rootKey, k ≠ k' → p.Leads rows k k' →
      Precedes (p.groupCell rows) (Draft.fullOrder p) k k') ↔
      (b.order = .desc → p.PlacesMixed rows b.column) := by
  constructor
  · intro h hb k hk k' hk' hne hmixed
    rw [← leads_iff_of_mixed hmany horder hb hmixed hk']
    -- one of the two keys has the first row, and pages keep that
    refine ⟨fun hpage ↦ ?_, h k hk k' hk' hne⟩
    refine (leads_total hmany horder hk hk').resolve_right fun hleads ↦ hne ?_
    exact pageKey_antisymm hmany hk hk' hpage (h k' hk' k hk hne.symm hleads)
  · intro h k hk k' hk' hne hleads
    by_cases hb : b.order = .desc
    -- where only the other key is mixed the condition is about the two the other way round
    · by_cases hmixed : p.IsMixed rows b.column k
      · rw [h hb k hk k' hk' hne hmixed, ← leads_iff_of_mixed hmany horder hb hmixed hk']
        exact hleads
      · by_cases hmixed' : p.IsMixed rows b.column k'
        · refine (Precedes.total _ _ k k').resolve_right fun hback ↦ hne ?_
          rw [h hb k' hk' k hk hne.symm hmixed', ← leads_iff_of_mixed hmany horder hb hmixed' hk]
            at hback
          exact hleads.antisymm hmany hback
        · exact (pageOrder_iff_leads hmany horder hk hk' fun _ ↦ ⟨hmixed, hmixed'⟩).2 hleads
    · exact (pageOrder_iff_leads hmany horder hk hk' fun hdesc ↦ absurd hdesc hb).2 hleads

theorem IsRowOrder.leads (h : p.IsRowOrder rows sorted) :
    (sorted.map p.rootKey).eraseDups.Pairwise (p.Leads rows) := by
  refine (pairwise_eraseDups_map p.rootKey h.pairwise).imp ?_
  rintro k k' ⟨r, hr, hkey, hfirst⟩
  exact ⟨r, h.perm.mem_iff.1 hr, hkey, fun r' hr' ↦ hfirst r' (h.perm.mem_iff.2 hr')⟩

theorem firsts_eq_iff (hmany : p.hasToMany) (horder : p.order = [b])
    (hsorted : p.IsRowOrder rows sorted) (hkeys : p.IsPageOrder rows keys) :
    (sorted.map p.rootKey).eraseDups = keys ↔
      (b.order = .desc → p.PlacesMixed rows b.column) := by
  have hmem (k : List (WithTop V)) :
      k ∈ (sorted.map p.rootKey).eraseDups ↔ k ∈ rows.map p.rootKey := by
    rw [List.mem_eraseDups, (hsorted.perm.map _).mem_iff]
  have hperm : keys.Perm (sorted.map p.rootKey).eraseDups :=
    hkeys.perm.trans (perm_eraseDups (hsorted.perm.map _).symm)
  rw [eq_iff_of_pairwise hperm (nodup_eraseDups _) hsorted.leads hkeys.pairwise
    (fun _ _ _ _ ↦ Leads.antisymm hmany)
    fun k hk k' hk' ↦ pageKey_antisymm hmany ((hmem k).1 hk) ((hmem k').1 hk')]
  simp only [hmem]
  exact placesMixed_iff hmany horder

theorem placesMixed_of_agree {c : ColumnRef}
    (h : ∀ r ∈ rows, ∀ r' ∈ rows, p.rootKey r = p.rootKey r' → r c = r' c) :
    p.PlacesMixed rows c := by
  rintro k - k' - - ⟨htop, v, hv, hne⟩
  obtain ⟨r, hr, hkey, hnull⟩ := mem_cells.1 htop
  obtain ⟨r', hr', hkey', rfl⟩ := mem_cells.1 hv
  exact absurd ((h r' hr' r hr (hkey'.trans hkey.symm)).trans hnull) hne

theorem records_rows (hp : p.KeepsRootsApart) {read : WithTop V → Datum}
    (hread : ∀ v w, Json.SameText (read v) (read w) → v = w) (rows : List (JoinedRow (WithTop V))) :
    p.records (rows.map fun r ↦ p.resultRow (read ∘ r)) =
      (rows.map p.rootKey).eraseDups.map fun k ↦ .table <| (Shape.ofPlan p).record <|
        (rows.filter fun r ↦ p.rootKey r = k).map fun r ↦ p.resultRow (read ∘ r) := by
  -- root keys as lists and root keys as texts are grouped alike
  let text (k : List (WithTop V)) : String := Json.render (.list (k.map read))
  have htext : Function.Injective text := by
    intro k k' heq
    have hsame := Json.render_list_inj heq
    rw [List.forall₂_map_left_iff, List.forall₂_map_right_iff] at hsame
    simpa only [List.forall₂_eq_eq_eq] using hsame.imp hread
  have hrow (r : JoinedRow (WithTop V)) : p.rootKeyText (read ∘ r) = text (p.rootKey r) := by
    simp only [rootKeyText, rootKey, text, List.map_map]
  have hrecords := hp.apart (rows.map (read ∘ ·))
  have htexts : (rows.map (read ∘ ·)).map p.rootKeyText = (rows.map p.rootKey).map text := by
    rw [List.map_map, List.map_map]
    exact List.map_congr_left fun r _ ↦ hrow r
  rw [recordsByRoot, htexts, eraseDups_map_of_injective htext, List.map_map, List.map_map]
    at hrecords
  refine hrecords.trans (List.map_congr_left fun k _ ↦ ?_)
  have hgroup : (rows.map (read ∘ ·)).filter (fun r ↦ p.rootKeyText r == text k) =
      (rows.filter fun r ↦ p.rootKey r = k).map (read ∘ ·) := by
    rw [List.filter_map]
    congr 1
    refine List.filter_congr fun r _ ↦ ?_
    rw [Bool.eq_iff_iff]
    simp [hrow, htext.eq_iff]
  rw [Function.comp_apply, hgroup, List.map_map]
  rfl

/-- The root keys occur in the order of the pages, and the records come in it. -/
structure ComesAsPaged (p : Plan) (sorted : List (JoinedRow (WithTop V)))
    (keys : List (List (WithTop V))) : Prop where
  firsts : (sorted.map p.rootKey).eraseDups = keys
  records : p.KeepsRootsApart → ∀ read : WithTop V → Datum,
    (∀ v w, Json.SameText (read v) (read w) → v = w) →
    p.records (sorted.map fun r ↦ p.resultRow (read ∘ r)) =
      keys.map fun k ↦ .table <| (Shape.ofPlan p).record <|
        (sorted.filter fun r ↦ p.rootKey r = k).map fun r ↦ p.resultRow (read ∘ r)

theorem comesAsPaged_iff :
    p.ComesAsPaged sorted keys ↔ (sorted.map p.rootKey).eraseDups = keys := by
  refine ⟨fun h ↦ h.firsts, ?_⟩
  rintro rfl
  exact ⟨rfl, fun hp read hread ↦ records_rows hp hread sorted⟩

section

variable {s : Schema} {root : Entity} {o : QueryOptions} {t : AliasTable} {name field : String}

theorem Compiled.order_of_sortBy (h : Compiled s root o p t) (hsort : o.sortBy = some field) :
    p.order = [⟨t.ref (Field.ofText field), o.sortOrder⟩] := by
  rw [h.order, QueryOptions.ordered, hsort]

/-- Under a join to many the records come in the order of the pages when the sort column ascends,
and when it descends exactly where pages have each mixed key in the place of its rows without a
value. -/
theorem comesAsPaged_iff_of_compile (h : compile s name o = .ok p) (hmany : p.hasToMany)
    (hsort : o.sortBy = some field) (hsorted : p.IsRowOrder rows sorted)
    (hkeys : p.IsPageOrder rows keys) :
    ∃ b, p.order = [b] ∧ b.order = o.sortOrder ∧ p.SortsBy (b :: p.keyOrder) ∧
      (p.ComesAsPaged sorted keys ↔ (o.sortOrder = .desc → p.PlacesMixed rows b.column)) := by
  obtain ⟨root, t, -, hc⟩ := compile_ok h
  have horder := hc.order_of_sortBy hsort
  exact ⟨_, horder, rfl, sortsBy hmany horder,
    comesAsPaged_iff.trans (firsts_eq_iff hmany horder hsorted hkeys)⟩

theorem Compiled.comesAsPaged_of_root (h : Compiled s root o p t) (hmany : p.hasToMany)
    (hsort : o.sortBy = some field) (hfield : (Field.ofText field).relation = none)
    (hroot : ∀ r ∈ rows, ∀ r' ∈ rows, p.rootKey r = p.rootKey r' →
      ∀ column, r ⟨p.rootName, column⟩ = r' ⟨p.rootName, column⟩)
    (hsorted : p.IsRowOrder rows sorted) (hkeys : p.IsPageOrder rows keys) :
    p.ComesAsPaged sorted keys := by
  have href : t.ref (Field.ofText field) = ⟨p.rootName, (Field.ofText field).column⟩ :=
    AliasTable.ref_eq (by rw [hfield, h.rootName]; rfl)
  refine comesAsPaged_iff.2
    ((firsts_eq_iff hmany (h.order_of_sortBy hsort) hsorted hkeys).2 fun _ ↦ ?_)
  refine placesMixed_of_agree fun r hr r' hr' hkey ↦ ?_
  rw [href]
  exact hroot r hr r' hr' hkey _

end

def authors : Schema :=
  .ofEntities [
    { name := "Author", table := "authors", primaryKey := ["id"], columns := [⟨"id", false⟩]
      relations := [⟨"books", "Book", .oneToMany, [⟨"id", "authorId"⟩], none, none⟩]
      softDelete := none },
    { name := "Book", table := "books", primaryKey := ["id"]
      columns := [⟨"id", false⟩, ⟨"authorId", false⟩, ⟨"rating", false⟩], relations := []
      softDelete := none }]

def bestRated : QueryOptions :=
  { relations := ["books"], sortBy := some "books.rating", sortOrder := .desc }

theorem expand_bestRated : Path.expand bestRated.relations = ["books"] :=
  Path.expand_eq_of_ascending (by decide +kernel)

structure IsBestRated (p : Plan) : Prop where
  hasToMany : p.hasToMany
  rootName : p.rootName = "author"
  primaryKey : p.primaryKey = ["id"]
  order : p.order = [⟨⟨"books", "rating"⟩, .desc⟩]

theorem exists_isBestRated : ∃ p, compile authors "Author" bestRated = .ok p ∧ p.IsBestRated := by
  have hplan : (compile authors "Author" bestRated).toOption.map (fun p ↦
      (p.hasToMany, p.rootName, p.primaryKey, p.order)) =
      some (true, "author", ["id"], [⟨⟨"books", "rating"⟩, .desc⟩]) := by
    simp only [compile, ofChecked, JoinPlanner.plan, expand_bestRated]
    decide +kernel
  obtain ⟨p, hp, hv⟩ := exists_ok_of_map hplan
  simp only [Prod.mk.injEq] at hv
  exact ⟨p, hp, hv.1, hv.2.1, hv.2.2.1, hv.2.2.2⟩

namespace IsBestRated

variable {rows : List (JoinedRow (WithTop ℕ))}

theorem keyOrder (h : p.IsBestRated) : p.keyOrder = [⟨⟨"author", "id"⟩, .asc⟩] := by
  rw [Plan.keyOrder, rootKeys, h.rootName, h.primaryKey, h.order]
  decide

theorem fullOrder (h : p.IsBestRated) :
    Draft.fullOrder p = [⟨⟨"books", "rating"⟩, .desc⟩, ⟨⟨"author", "id"⟩, .asc⟩] := by
  rw [fullOrder_eq h.hasToMany, h.order, h.keyOrder]
  rfl

theorem rootKey (h : p.IsBestRated) :
    (p.rootKey : JoinedRow (WithTop ℕ) → _) = fun r ↦ [r ⟨"author", "id"⟩] := by
  funext r
  rw [Plan.rootKey, rootKeys, h.rootName, h.primaryKey]
  rfl

theorem cells (h : p.IsBestRated) : p.cells rows = fun c k ↦
    (rows.filter fun r ↦ [r ⟨"author", "id"⟩] = k).map fun r ↦ r c := by
  funext c k
  rw [Plan.cells, h.rootKey]

theorem groupCell (h : p.IsBestRated) : p.groupCell rows = fun o k ↦
    o.aggregate.of ((rows.filter fun r ↦ [r ⟨"author", "id"⟩] = k).map fun r ↦ r o.column) := by
  funext o k
  rw [Plan.groupCell, h.cells]

end IsBestRated

def bookOf (author book : ℕ) (rating : WithTop ℕ) : JoinedRow (WithTop ℕ) := fun c ↦
  match c.table, c.column with
  | "author", "id" => .some author
  | "books", "id" => .some book
  | "books", "authorId" => .some author
  | "books", "rating" => rating
  | _, _ => ⊤

theorem bookOf_author (author book : ℕ) (rating : WithTop ℕ) (column : String) :
    bookOf author book rating ⟨"author", column⟩ = if column = "id" then .some author else ⊤ := by
  by_cases hcolumn : column = "id"
  · subst hcolumn
    rfl
  · simp only [bookOf]
    split <;> simp_all

def bestFirst : List (JoinedRow (WithTop ℕ)) :=
  [bookOf 1 11 ⊤, bookOf 1 12 (.some 9), bookOf 2 21 (.some 5)]

theorem comesAsPaged_iff_of_compile_bestFirst : ∃ p, compile authors "Author" bestRated = .ok p ∧
    p.hasToMany ∧ p.IsRowOrder bestFirst bestFirst ∧
    p.IsPageOrder bestFirst [[.some 1], [.some 2]] ∧
    p.ComesAsPaged bestFirst [[.some 1], [.some 2]] := by
  obtain ⟨p, hp, h⟩ := exists_isBestRated
  have hrows : p.IsRowOrder bestFirst bestFirst := ⟨.refl _, by rw [h.fullOrder]; decide⟩
  have hpages : p.IsPageOrder bestFirst [[.some 1], [.some 2]] :=
    ⟨by rw [h.rootKey]; decide, by rw [h.groupCell, h.fullOrder]; decide⟩
  have hmixed : p.PlacesMixed bestFirst ⟨"books", "rating"⟩ := by
    rw [PlacesMixed]
    simp only [IsMixed, h.rootKey, h.groupCell, h.cells, h.fullOrder, h.keyOrder]
    decide
  obtain ⟨b, horder, -, -, hiff⟩ := comesAsPaged_iff_of_compile hp h.hasToMany rfl hrows hpages
  obtain rfl : _ = b := List.singleton_inj.1 (h.order.symm.trans horder)
  exact ⟨p, hp, h.hasToMany, hrows, hpages, hiff.2 fun _ ↦ hmixed⟩

def cellDatum : WithTop ℕ → Datum
  | ⊤ => .null
  | .some n => .int n

def unratedFirst : List (JoinedRow (WithTop ℕ)) :=
  [bookOf 1 11 ⊤, bookOf 2 21 (.some 10), bookOf 1 12 (.some 5)]

/-- The author of the best rated book is first on pages, and second among the records. -/
theorem records_of_unratedFirst : authors.check = .ok () ∧
    ∃ p, compile authors "Author" bestRated = .ok p ∧ p.hasToMany ∧
      (∀ r ∈ unratedFirst, ∀ r' ∈ unratedFirst, p.rootKey r = p.rootKey r' →
        ∀ column, r ⟨p.rootName, column⟩ = r' ⟨p.rootName, column⟩) ∧
      p.IsRowOrder unratedFirst unratedFirst ∧
      p.IsPageOrder unratedFirst [[.some 2], [.some 1]] ∧
      (unratedFirst.map p.rootKey).eraseDups = [[.some 1], [.some 2]] ∧
      p.records (unratedFirst.map fun r ↦ p.resultRow (cellDatum ∘ r)) =
        [.table [("id", .int 1), ("books", .list [
          .table [("id", .int 11), ("authorId", .int 1), ("rating", .null)],
          .table [("id", .int 12), ("authorId", .int 1), ("rating", .int 5)]])],
        .table [("id", .int 2), ("books", .list [
          .table [("id", .int 21), ("authorId", .int 2), ("rating", .int 10)]])]] := by
  refine ⟨rfl, ?_⟩
  obtain ⟨p, hp, h⟩ := exists_isBestRated
  have hplan : (compile authors "Author" bestRated).toOption.map (fun p ↦
      p.records (unratedFirst.map fun r ↦ p.resultRow (cellDatum ∘ r))) =
      some [.table [("id", .int 1), ("books", .list [
          .table [("id", .int 11), ("authorId", .int 1), ("rating", .null)],
          .table [("id", .int 12), ("authorId", .int 1), ("rating", .int 5)]])],
        .table [("id", .int 2), ("books", .list [
          .table [("id", .int 21), ("authorId", .int 2), ("rating", .int 10)]])]] := by
    simp only [compile, ofChecked, JoinPlanner.plan, expand_bestRated]
    decide +kernel
  obtain ⟨p', hp', hrecords⟩ := exists_ok_of_map hplan
  obtain rfl : p' = p := Except.ok.inj (hp'.symm.trans hp)
  refine ⟨p', hp, h.hasToMany, ?_, ⟨.refl _, by rw [h.fullOrder]; decide⟩,
    ⟨by rw [h.rootKey]; decide, by rw [h.groupCell, h.fullOrder]; decide⟩,
    by rw [h.rootKey]; decide, hrecords⟩
  have hbook : ∀ r ∈ unratedFirst, ∃ author book rating, r = bookOf author book rating := by
    simp only [unratedFirst, List.mem_cons, List.not_mem_nil, or_false]
    rintro r (rfl | rfl | rfl) <;> exact ⟨_, _, _, rfl⟩
  intro r hr r' hr' hkey column
  obtain ⟨author, book, rating, rfl⟩ := hbook r hr
  obtain ⟨author', book', rating', rfl⟩ := hbook r' hr'
  rw [h.rootKey, List.cons.injEq, bookOf_author, bookOf_author, if_pos rfl, if_pos rfl] at hkey
  rw [h.rootName, bookOf_author, bookOf_author, hkey.1]

end Plan

end Listing
