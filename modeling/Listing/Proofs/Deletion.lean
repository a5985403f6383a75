import Listing.Proofs.Parameters
import Listing.Proofs.Reads

namespace Listing

/-- The column that has to be null in the rows of an entity which are not deleted, in a table that
stands for it. -/
def Entity.guard? (e : Entity) (name : String) (withDeleted : Bool) : Option ColumnRef :=
  if withDeleted then none else e.softDelete.map fun column ↦ ⟨name, column⟩

/-- A joined table under its name, with the conditions it is joined on. -/
structure Source where
  table : String
  name : String
  conditions : List Draft

namespace Draft

def live (c : ColumnRef) : Draft := column c ++ [.word " IS NULL"]

def joined (s : Source) : Draft :=
  .word " LEFT JOIN " :: .name s.table :: .word " AS " :: .name s.name :: .word " ON " ::
    separated " AND " s.conditions

end Draft

def Link.source (l : Link) : Source := ⟨l.table, l.name, [Draft.equal l.onParent]⟩

namespace Join

/-- The tables of a join. The guard belongs to the target, behind its pairs. -/
def sources (j : Join) : List Source :=
  j.link.toList.map Link.source ++
    [⟨j.table, j.name, j.on.map Draft.equal ++ j.softDelete.toList.map Draft.live⟩]

end Join

namespace Draft

theorem joined_link (l : Link) : joined l.source = link l := by simp [joined, Link.source, link]

theorem join_eq {j : Join} (h : j.on ≠ []) : join j = j.sources.flatMap joined := by
  have hon : j.on.map equal ≠ [] := by simpa using h
  rw [join, Join.sources, List.flatMap_append, List.flatMap_singleton]
  congr 1
  · cases j.link with
    | none => rfl
    | some l => simp [joined_link]
  · rw [joined]
    cases j.softDelete with
    | none => simp
    | some c =>
      rw [Option.toList_some, List.map_singleton, separated, separated,
        Reader.intercalate_concat _ hon]
      rfl

theorem tables_eq {p : Plan} (h : ∀ j ∈ p.joins, j.on ≠ []) :
    tables p = .word " FROM " :: .name p.rootTable :: .word " AS " :: .name p.rootName ::
      (p.joins.flatMap Join.sources).flatMap joined := by
  rw [tables, List.flatMap_assoc]
  rw [List.flatMap_congr fun j hj ↦ join_eq (h j hj)]

end Draft

namespace Scope

/-- A scope that reads the tables under these conditions, the last of which is the guard of the
root. -/
structure IsGuarded (sc : Scope) (p : Plan) (others : List Predicate) (guard? : Option ColumnRef) :
    Prop where
  written : Draft.scope p sc = sc.before ++
    (.word " FROM " :: .name p.rootTable :: .word " AS " :: .name p.rootName ::
      (p.joins.flatMap Join.sources).flatMap Draft.joined) ++
    sc.opening ++
    Draft.separated " AND " (others.map (Draft.predicate p.bindings) ++
      guard?.toList.map Draft.live) ++ sc.closing
  enclosed : guard?.isSome → (sc.opening = [.word " WHERE "] ∧ sc.closing = []) ∨
    (sc.opening = [.word " WHERE ("] ∧ sc.closing = [.word ") AND "])

end Scope

namespace Token

/-- Tables of which each is read with its guard, and behind them that of the root as the last of the
conditions. -/
def IsGuarded (p : Plan) (d : Dialect) (others : List Predicate) (guard? : Option ColumnRef)
    (ts : List Token) : Prop :=
  ∃ conditions behind, ts = ofTables p ++ behind ∧
    List.Forall₂ (IsCondition d p.bindings) others conditions ∧
      (guard?.isSome → IsWhere (conditions ++ guard?.toList.map ofNull) behind)

variable {p : Plan} {d : Dialect} {others : List Predicate} {guard? : Option ColumnRef}
  {ts : List Token}

theorem IsCondition.eq_ofNull {b : Bindings} {c : ColumnRef}
    (h : IsCondition d b (.null c false) ts) : ofNull c = ts := by
  obtain ⟨-, bound, rfl⟩ := h
  rw [Draft.tokensFrom_null]
  rfl

theorem ReadsPlan.isGuarded (h : ReadsPlan p d ts)
    (hpredicates : p.predicates = others ++ guard?.toList.map (.null · false)) :
    IsGuarded p d others guard? ts := by
  obtain ⟨conditions, behind, rfl, hconditions, hwhere⟩ := h
  rw [hpredicates] at hconditions
  have hothers := (List.forall₂_take_append _ _ _ hconditions.flip).flip
  have hguard := (List.forall₂_drop_append _ _ _ hconditions.flip).flip
  have hlast : guard?.toList.map ofNull = conditions.drop others.length := by
    rw [List.forall₂_map_left_iff] at hguard
    rw [← List.forall₂_eq_eq_eq, List.forall₂_map_left_iff]
    exact hguard.imp fun _ _ ↦ IsCondition.eq_ofNull
  refine ⟨conditions.take others.length, behind, rfl, hothers, fun hsome ↦ ?_⟩
  rw [hlast, List.take_append_drop]
  apply hwhere
  obtain ⟨c, rfl⟩ := Option.isSome_iff_exists.1 hsome
  simp [hpredicates]

end Token

/-- A statement that reads the tables of its plan so many times, all of them with their guards. -/
def Statement.IsGuarded (st : Statement) (p : Plan) (d : Dialect) (others : List Predicate)
    (guard? : Option ColumnRef) (times : Nat) : Prop :=
  ∃ ts, Token.ofStatement? d st = some ts ∧ (Token.reads ts).length = times ∧
    ∀ r ∈ Token.reads ts, Token.IsGuarded p d others guard? r

namespace Plan

variable {s : Schema} {root : Entity} {name : String} {o : QueryOptions} {p : Plan}
  {t : AliasTable}

theorem softDelete_eq (root : Entity) (name : String) (withDeleted : Bool) :
    softDeletePredicates root name withDeleted =
      (root.guard? name withDeleted).toList.map (.null · false) := by
  rw [softDeletePredicates, Entity.guard?]
  cases withDeleted with
  | true => rfl
  | false => cases root.softDelete <;> rfl

theorem Compiled.on_ne_nil (h : Compiled s root o p t) : ∀ j ∈ p.joins, j.on ≠ [] := by
  intro j hj
  obtain ⟨u, u', hops, hop, hstep⟩ := h.step hj
  cases hstep.connects with
  | direct _ hne _ hon => simpa [hon] using hne
  | linked _ _ _ _ _ _ _ hon => simp [hon]

theorem scope_encloses (h : p.predicates ≠ []) {d : Dialect} {sc : Scope}
    (hsc : sc ∈ Draft.pageScopes p ++ [Draft.countScope d p]) :
    (sc.opening = [.word " WHERE "] ∧ sc.closing = []) ∨
      (sc.opening = [.word " WHERE ("] ∧ sc.closing = [.word ") AND "]) := by
  have hsome : p.predicates.isEmpty = false := by simpa using h
  have hwhere : Draft.whereWord p = [.word " WHERE "] := by simp [Draft.whereWord, hsome]
  have hkeys : sc = Draft.keyScope p ∨ sc = Draft.countScope d p →
      sc.opening = [.word " WHERE "] ∧ sc.closing = [] := by
    rintro (rfl | rfl) <;> exact ⟨hwhere, rfl⟩
  rw [List.mem_append, Draft.pageScopes, List.mem_singleton] at hsc
  cases hmany : p.hasToMany with
  | true =>
    simp only [hmany, if_true, List.mem_cons, List.not_mem_nil, or_false, or_assoc] at hsc
    rcases hsc with rfl | hsc
    · exact .inr (by simp [Draft.rowScope, hmany, hsome])
    · exact .inl (hkeys hsc)
  | false =>
    simp only [hmany, Bool.false_eq_true, if_false, List.mem_singleton] at hsc
    rcases hsc with rfl | hsc
    · exact .inl (by simp [Draft.rowScope, hmany, hwhere])
    · exact .inl (hkeys (.inr hsc))

section Guarded

variable {others : List Predicate} {guard? : Option ColumnRef}
  (hpredicates : p.predicates = others ++ guard?.toList.map (.null · false))

include hpredicates

theorem conjunction_guarded : Draft.conjunction p =
    Draft.separated " AND " (others.map (Draft.predicate p.bindings) ++
      guard?.toList.map Draft.live) := by
  rw [Draft.conjunction, hpredicates, List.map_append, List.map_map]
  rfl

variable (hon : ∀ j ∈ p.joins, j.on ≠ [])

include hon

theorem isGuarded_scope {d : Dialect} {sc : Scope}
    (hsc : sc ∈ Draft.pageScopes p ++ [Draft.countScope d p]) : sc.IsGuarded p others guard? := by
  constructor
  · rw [Draft.scope, Draft.tables_eq hon, conjunction_guarded hpredicates]
  · intro hguard
    refine scope_encloses ?_ hsc
    obtain ⟨c, rfl⟩ := Option.isSome_iff_exists.1 hguard
    simp [hpredicates]

theorem isGuarded_count (d : Dialect) :
    (Draft.statement d (Draft.count d p)).IsGuarded p d others guard? 1 := by
  obtain ⟨r, hr, hreads⟩ := Draft.reads_count (d := d) hon
  refine ⟨_, Draft.ofStatement?_statement (Draft.isSpaced_count d p) (Draft.isApart_count d p), ?_⟩
  rw [hreads]
  exact ⟨rfl, List.forall_mem_singleton.2 (hr.isGuarded hpredicates)⟩

theorem isGuarded_select (d : Dialect) :
    (Draft.statement d (Draft.select p)).IsGuarded p d others guard?
      (if p.hasToMany then 2 else 1) := by
  refine ⟨_, Draft.ofStatement?_statement (Draft.isSpaced_select p) (Draft.isApart_select p), ?_⟩
  cases hmany : p.hasToMany with
  | true =>
    obtain ⟨rows, keys, hrows, hkeys, hreads⟩ := Draft.reads_select_toMany (d := d) hon hmany
    rw [hreads]
    exact ⟨rfl, List.forall_mem_cons.2 ⟨hrows.isGuarded hpredicates,
      List.forall_mem_singleton.2 (hkeys.isGuarded hpredicates)⟩⟩
  | false =>
    obtain ⟨r, hr, hreads⟩ := Draft.reads_select (d := d) hon hmany
    rw [hreads]
    exact ⟨rfl, List.forall_mem_singleton.2 (hr.isGuarded hpredicates)⟩

end Guarded

/-- Every occurrence of an entity has its guard, unless deleted rows are wanted: the root as the
last of the predicates, each join in a column of its own. The guards are written in every scope of
both statements, and are read wherever the texts of these read tables. -/
theorem guards_of_compile (hroot : s.requireEntity name = .ok root)
    (h : compile s name o = .ok p) :
    (∀ j ∈ p.joins, ∃ target, s.targetOf root j.path = .ok target ∧ j.table = target.table ∧
      j.softDelete = target.guard? j.name o.withDeleted) ∧
    p.rootTable = root.table ∧
    ∃ filtered searched, p.predicates = filtered ++ searched ++
        (root.guard? p.rootName o.withDeleted).toList.map (.null · false) ∧
      List.Forall₂ p.HasPredicate (o.filters.zipIdx.filter (·.1.isKept)) filtered ∧
      (searched = [] ∨ ∃ group, searched = [.any group]) ∧
      (∀ d, p.selectStatement d = .ok (Draft.statement d
          ((Draft.pageScopes p).flatMap (Draft.scope p) ++ Draft.pageTail p)) ∧
        p.countStatement d = .ok (Draft.statement d (Draft.scope p (Draft.countScope d p))) ∧
        ∀ sc ∈ Draft.pageScopes p ++ [Draft.countScope d p],
          sc.IsGuarded p (filtered ++ searched) (root.guard? p.rootName o.withDeleted)) ∧
      ∀ d, ∃ page count, p.selectStatement d = .ok page ∧ p.countStatement d = .ok count ∧
        page.IsGuarded p d (filtered ++ searched) (root.guard? p.rootName o.withDeleted)
          (if p.hasToMany then 2 else 1) ∧
        count.IsGuarded p d (filtered ++ searched) (root.guard? p.rootName o.withDeleted) 1 := by
  obtain ⟨root', t, hroot', hc⟩ := compile_ok h
  obtain rfl : root' = root := Except.ok.inj (hroot'.symm.trans hroot)
  have hpredicates := hc.predicates
  rw [softDelete_eq] at hpredicates
  refine ⟨?_, hc.rootTable, ?_⟩
  · intro j hj
    obtain ⟨u, u', hops, hop, hstep⟩ := hc.step hj
    exact ⟨hop.target, hstep.targetOf, hstep.table, hstep.softDelete⟩
  · refine ⟨_, _, hpredicates, hc.hasPredicate, ?_, fun d ↦ ⟨?_, ?_, ?_⟩, fun d ↦ ⟨_, _,
      hc.isBound.selectStatement d, hc.isBound.countStatement d,
      isGuarded_select hpredicates hc.on_ne_nil d, isGuarded_count hpredicates hc.on_ne_nil d⟩⟩
    · rcases Conditions.searched_cases o t with hnone | ⟨term, columns, hsome⟩
      · exact .inl (by simp [hnone])
      · exact .inr (by simp [hsome, Conditions.searching])
    · rw [← Draft.select_eq]
      exact hc.isBound.selectStatement d
    · rw [← Draft.count_eq]
      exact hc.isBound.countStatement d
    · exact fun sc hsc ↦ isGuarded_scope hpredicates hc.on_ne_nil hsc

theorem guards_of_compile_nodes : ∃ p, compile nodes "Node" nodeOptions = .ok p ∧
    p.joins.map (·.softDelete) = [some ⟨"node_links", "deletedAt"⟩, some ⟨"node_2", "deletedAt"⟩,
      some ⟨"node_links_2", "deletedAt"⟩] ∧
    ∃ others, p.predicates = others ++ [.null ⟨"node", "deletedAt"⟩ false] ∧
      (∀ sc ∈ Draft.pageScopes p ++ [Draft.countScope .postgres p],
        sc.IsGuarded p others (some ⟨"node", "deletedAt"⟩)) ∧
      ∃ page count, p.selectStatement .postgres = .ok page ∧
        p.countStatement .postgres = .ok count ∧
        page.IsGuarded p .postgres others (some ⟨"node", "deletedAt"⟩) 2 ∧
        count.IsGuarded p .postgres others (some ⟨"node", "deletedAt"⟩) 1 := by
  have he : Path.expand nodeOptions.relations = ["node_links", "node", "node.links"] :=
    Path.expand_eq_of_ascending (by decide +kernel)
  have hplan : (compile nodes "Node" nodeOptions).toOption.map (fun p ↦
      (p.rootName, p.hasToMany, p.joins.map (·.softDelete))) = some ("node", true, [
        some ⟨"node_links", "deletedAt"⟩, some ⟨"node_2", "deletedAt"⟩,
        some ⟨"node_links_2", "deletedAt"⟩]) := by
    simp only [compile, ofChecked, JoinPlanner.plan, he]
    decide +kernel
  obtain ⟨p, hp, hv⟩ := exists_ok_of_map hplan
  obtain ⟨hname, hv⟩ := Prod.mk.inj hv
  obtain ⟨hmany, hguards⟩ := Prod.mk.inj hv
  obtain ⟨-, -, filtered, searched, hpredicates, -, -, hscopes, htexts⟩ := guards_of_compile rfl hp
  obtain ⟨-, -, hguarded⟩ := hscopes .postgres
  have htexts := htexts .postgres
  rw [hmany, if_pos rfl, hname] at htexts
  rw [hname] at hpredicates hguarded
  exact ⟨p, hp, hguards, filtered ++ searched, hpredicates, hguarded, htexts⟩

end Plan

end Listing
