import Listing.Proofs.Acceptance

namespace Listing

def FilterValue.erased (v : FilterValue) : FilterValue :=
  .list (List.replicate v.expanded.length .null)

theorem FilterValue.erased_eq_iff {v w : FilterValue} :
    v.erased = w.erased ↔ v.expanded.length = w.expanded.length := by
  simp [erased]

namespace Keyed

def erased (b : Bindings) : Bindings := b.map fun e ↦ (e.1, e.2.erased)

theorem erased_append (b b' : Bindings) : erased (b ++ b') = erased b ++ erased b' :=
  List.map_append

theorem get?_erased (b : Bindings) (n : String) :
    (erased b).get? n = (b.get? n).map FilterValue.erased := by
  induction b with
  | nil => rfl
  | cons e b ih =>
    have herased : erased (e :: b) = (e.1, e.2.erased) :: erased b := rfl
    rw [herased, get?_cons, get?_cons, ih]
    split <;> rfl

end Keyed

def Piece.erased : Piece → Piece
  | value _ => .value .null
  | piece => piece

def Plan.erased (p : Plan) : Plan := { p with bindings := Keyed.erased p.bindings }

namespace Draft

def erased (draft : Draft) : Draft := draft.map Piece.erased

@[simp] theorem erased_nil : erased [] = [] := rfl

@[simp] theorem erased_word (text : String) (ps : Draft) :
    erased (.word text :: ps) = .word text :: ps.erased := rfl

@[simp] theorem erased_name (n : String) (ps : Draft) :
    erased (.name n :: ps) = .name n :: ps.erased := rfl

@[simp] theorem erased_value (v : FilterValue) (ps : Draft) :
    erased (.value v :: ps) = .value .null :: ps.erased := rfl

@[simp] theorem erased_unbound (n : String) (ps : Draft) :
    erased (.unbound n :: ps) = .unbound n :: ps.erased := rfl

@[simp] theorem erased_append (a b : Draft) : erased (a ++ b) = a.erased ++ b.erased :=
  List.map_append

theorem erased_separated_map {β : Type} (separator : String) (f : β → Draft) (l : List β) :
    erased (separated separator (l.map f)) = separated separator (l.map fun x ↦ (f x).erased) := by
  induction l with
  | nil => rfl
  | cons x l ih =>
    cases l with
    | nil => simp
    | cons y l =>
      simp only [List.map_cons, separated_cons_cons, erased_append, erased_word] at ih ⊢
      rw [ih]

theorem erased_of_values {draft : Draft} (h : draft.filterMap Piece.value? = []) :
    draft.erased = draft := by
  refine (List.map_congr_left fun piece hpiece ↦ ?_).trans draft.map_id
  have hnone := List.filterMap_eq_nil_iff.1 h piece hpiece
  cases piece with
  | value v => simp [Piece.value?] at hnone
  | word | name | unbound => rfl

theorem textFrom_erased (d : Dialect) (bound : Nat) (draft : Draft) :
    textFrom d bound draft.erased = textFrom d bound draft := by
  induction draft generalizing bound with
  | nil => rfl
  | cons piece draft ih => cases piece <;> simp [textFrom, ih]

theorem erased_param (b : Bindings) (n : String) :
    (param b n).erased = param (Keyed.erased b) n := by
  have hget := Keyed.get?_erased b n
  cases h : b.get? n with
  | none =>
    rw [h] at hget
    rw [param, param, h, hget]
    rfl
  | some v =>
    rw [h] at hget
    rw [param_eq h, param_eq hget, erased_separated_map]
    simp [FilterValue.erased, FilterValue.expanded, erased, Piece.erased]

theorem erased_column (c : ColumnRef) : (column c).erased = column c := rfl

theorem erased_predicate (b : Bindings) (q : Predicate) :
    (predicate b q).erased = predicate (Keyed.erased b) q := by
  induction q using Predicate.induction with
  | inList c negated n empty =>
    cases empty <;> simp [predicate, erased_column, erased_param]
  | any group ih =>
    simp only [predicate, predicates_eq, erased_word, erased_append, erased_separated_map,
      erased_nil]
    rw [List.map_congr_left ih]
  | compare | ilike | between | null => simp [predicate, erased_column, erased_param]

theorem erased_conjunction (p : Plan) : (conjunction p).erased = conjunction p.erased := by
  rw [conjunction, erased_separated_map]
  exact congrArg _ (List.map_congr_left fun q _ ↦ erased_predicate p.bindings q)

theorem erased_selection (p : Plan) : (selection p).erased = selection p.erased :=
  erased_of_values (filterMap_selection seesParams_value p)

theorem erased_tables (p : Plan) : (tables p).erased = tables p.erased :=
  erased_of_values (filterMap_tables seesParams_value p)

theorem erased_ordering (p : Plan) (grouped : Bool) :
    (ordering p grouped).erased = ordering p.erased grouped :=
  erased_of_values (filterMap_ordering seesParams_value p grouped)

theorem erased_body (p : Plan) : (body p).erased = body p.erased := by
  have hpredicates : p.erased.predicates = p.predicates := rfl
  rw [body, body, restriction, restriction, hpredicates, erased_append, erased_tables]
  split <;> simp [erased_conjunction]

theorem erased_pageKeys (p : Plan) : (pageKeys p).erased = pageKeys p.erased := by
  have hkeys : p.erased.rootKeys = p.rootKeys := rfl
  have hprimary : p.erased.primaryKey = p.primaryKey := rfl
  have hcolumns (cs : List ColumnRef) : (columns cs).erased = columns cs :=
    erased_of_values (filterMap_columns seesParams_value cs)
  have hwindow : (window p).erased = window p.erased := rfl
  simp only [pageKeys, hkeys, hprimary, erased_append, erased_word, erased_name, erased_nil,
    hcolumns, hwindow, erased_body, erased_ordering, apply_ite erased]

theorem erased_select (p : Plan) : (select p).erased = select p.erased := by
  have hmany : p.erased.hasToMany = p.hasToMany := rfl
  have hpredicates : p.erased.predicates = p.predicates := rfl
  have hwindow : (window p).erased = window p.erased := rfl
  simp only [select, hmany, hpredicates, erased_append, erased_word, erased_nil, apply_ite erased,
    hwindow, erased_selection, erased_tables, erased_conjunction, erased_pageKeys, erased_ordering,
    erased_body]

theorem erased_count (d : Dialect) (p : Plan) : (count d p).erased = count d p.erased := by
  have hkeys : p.erased.rootKeys = p.rootKeys := rfl
  have hcounted : (countedKeys d p.rootKeys).erased = countedKeys d p.rootKeys :=
    erased_of_values (filterMap_countedKeys seesParams_value d p.rootKeys)
  simp only [count, hkeys, hcounted, erased_append, erased_word, erased_name, erased_body]

theorem sql_eq_of_erased {a b : Draft} (h : a.erased = b.erased) (d : Dialect) :
    (a.statement d).sql = (b.statement d).sql := by
  rw [statement, statement, ← textFrom_erased d 0 a, ← textFrom_erased d 0 b, h]

theorem select_sql_eq {p p' : Plan} (h : p.erased = p'.erased) (d : Dialect) :
    ((select p).statement d).sql = ((select p').statement d).sql :=
  sql_eq_of_erased (by rw [erased_select, erased_select, h]) d

theorem count_sql_eq {p p' : Plan} (h : p.erased = p'.erased) (d : Dialect) :
    ((count d p).statement d).sql = ((count d p').statement d).sql :=
  sql_eq_of_erased (by rw [erased_count, erased_count, h]) d

end Draft

namespace FilterCondition

/-- Filters that differ in their values only, and in these alike: both are kept or neither, both
list something or neither, and every parameter stands for as many values in both. -/
structure Alike (f g : FilterCondition) : Prop where
  field : f.field = g.field
  operator : f.operator = g.operator
  relation : f.relation = g.relation
  kept : f.isKept = g.isKept
  empty : f.operator = .isIn ∨ f.operator = .notIn →
    f.value.members.isEmpty = g.value.members.isEmpty
  widths : ∀ pair ∈ f.bound.zip g.bound, pair.1.expanded.length = pair.2.expanded.length

variable {f g : FilterCondition}

theorem Alike.refl (f : FilterCondition) : f.Alike f where
  field := rfl
  operator := rfl
  relation := rfl
  kept := rfl
  empty _ := rfl
  widths pair hpair := by
    obtain ⟨i, hi, rfl⟩ := List.mem_iff_getElem.1 hpair
    simp

theorem Alike.target_eq (h : f.Alike g) : f.target = g.target := by
  rw [target, target, h.field, h.relation]

def erasedEntries (c : Predicate × List (String × FilterValue)) : Predicate × Bindings :=
  (c.1, Keyed.erased c.2)

theorem Alike.compile_erased (h : f.Alike g) (index : Nat) (c : ColumnRef) :
    (f.compile index c).map erasedEntries = (g.compile index c).map erasedEntries := by
  obtain ⟨-, hoperator, -, hkept, hempty, hwidths⟩ := h
  cases hop : f.operator
  all_goals
    rw [hop] at hoperator hempty
    simp only [bound, hop, ← hoperator] at hwidths
    simp only [compile, hop, ← hoperator]
  case between =>
    have hbounds : f.value.bounds?.isSome = g.value.bounds?.isSome := by
      simpa [isKept, isValidBetween, hop, ← hoperator] using hkept
    cases hf : f.value.bounds? with
    | none =>
      have hg : g.value.bounds? = none := by simpa [hf] using hbounds.symm
      rw [hg]
    | some low =>
      obtain ⟨low', hg⟩ := Option.isSome_iff_exists.1 (hbounds.symm.trans (by simp [hf]))
      simpa [hf, hg, erasedEntries, Keyed.erased, FilterValue.erased_eq_iff] using hwidths
  case isIn | notIn =>
    rw [hempty (by simp)] at hwidths ⊢
    by_cases hnone : g.value.members.isEmpty
    · simp [hnone]
    · simpa [hnone, erasedEntries, Keyed.erased, FilterValue.erased_eq_iff] using hwidths
  all_goals
    simpa [erasedEntries, Keyed.erased, FilterValue.erased_eq_iff] using hwidths

end FilterCondition

namespace QueryOptions

/-- Options that differ in the values of filters and in the term of a search only, and in these
alike. -/
structure Alike (o o' : QueryOptions) : Prop where
  others : { o with search := none, filters := [] } = { o' with search := none, filters := [] }
  search : (o.search.bind Text.nonBlank?).isSome = (o'.search.bind Text.nonBlank?).isSome
  filters : List.Forall₂ FilterCondition.Alike o.filters o'.filters

theorem Alike.exists_eq {o o' : QueryOptions} (h : o.Alike o') :
    ∃ search filters, o' = { o with search, filters } := by
  refine ⟨o'.search, o'.filters, ?_⟩
  have hothers := h.others
  cases o
  cases o'
  simp_all

end QueryOptions

namespace Conditions

open FilterCondition

theorem compiled_erased {fs gs : List FilterCondition} (h : List.Forall₂ Alike fs gs)
    (t : AliasTable) (index : Nat) :
    (compiled t index fs).map erasedEntries = (compiled t index gs).map erasedEntries := by
  induction h generalizing index with
  | nil => rfl
  | cons hf _ ih =>
    rw [compiled_cons, compiled_cons, List.map_append, List.map_append, ih, ← Option.toList_map,
      ← Option.toList_map, hf.target_eq, hf.compile_erased]

theorem compiled_predicates {fs gs : List FilterCondition} (h : List.Forall₂ Alike fs gs)
    (t : AliasTable) : (compiled t 0 fs).map (·.1) = (compiled t 0 gs).map (·.1) := by
  have hpredicates := congrArg (List.map Prod.fst) (compiled_erased h t 0)
  rw [List.map_map, List.map_map] at hpredicates
  exact hpredicates

theorem compiled_entries {fs gs : List FilterCondition} (h : List.Forall₂ Alike fs gs)
    (t : AliasTable) : Keyed.erased ((compiled t 0 fs).flatMap (·.2)) =
      Keyed.erased ((compiled t 0 gs).flatMap (·.2)) := by
  have hentries := congrArg (List.flatMap Prod.snd) (compiled_erased h t 0)
  rw [List.flatMap_map, List.flatMap_map] at hentries
  rw [Keyed.erased, Keyed.erased, List.map_flatMap, List.map_flatMap]
  exact hentries

/-- A search has the same predicate for every term that is not blank, and binds texts only. -/
theorem searched_erased (o o' : QueryOptions) (t : AliasTable)
    (hfields : o.searchFields = o'.searchFields)
    (h : (o.search.bind Text.nonBlank?).isSome = (o'.search.bind Text.nonBlank?).isSome) :
    (o.searched t).predicates = (o'.searched t).predicates ∧
      Keyed.erased (o.searched t).bindings = Keyed.erased (o'.searched t).bindings := by
  have hbound (term : String) (columns : List ColumnRef) :
      Keyed.erased (searching term columns).bindings = (List.range columns.length).map fun i ↦
        (searchParameter i, .list [.null]) := by
    rw [searching_bindings, Keyed.erased, List.map_map]
    rfl
  rw [QueryOptions.searched, QueryOptions.searched, hfields]
  cases hterm : o.search.bind Text.nonBlank? with
  | none =>
    have hterm' : o'.search.bind Text.nonBlank? = none := by simpa [hterm] using h.symm
    simp [hterm']
  | some term =>
    obtain ⟨term', hterm'⟩ := Option.isSome_iff_exists.1 (h.symm.trans (by simp [hterm]))
    rw [hterm', Option.bind_some, Option.bind_some]
    split
    · exact ⟨rfl, rfl⟩
    · refine ⟨rfl, ?_⟩
      rw [Option.getD_some, Option.getD_some, hbound, hbound]

end Conditions

namespace Plan

variable {s : Schema} {name : String} {o o' : QueryOptions} {p p' : Plan}

theorem erased_assembled (h : o.Alike o') (root : Entity) (joined : JoinPlan) (t : AliasTable) :
    (assembled root o joined t).erased = (assembled root o' joined t).erased := by
  obtain ⟨search, filters, rfl⟩ := h.exists_eq
  obtain ⟨hsearch, hterms⟩ :=
    Conditions.searched_erased o { o with search, filters } t rfl h.search
  have hpredicates : (assembled root o joined t).predicates =
      (assembled root { o with search, filters } joined t).predicates := by
    rw [assembled, assembled, Conditions.compiled_predicates h.filters t, hsearch]
  have hbindings : Keyed.erased (assembled root o joined t).bindings =
      Keyed.erased (assembled root { o with search, filters } joined t).bindings := by
    rw [assembled_bindings, assembled_bindings, Keyed.erased_append, Keyed.erased_append,
      Conditions.compiled_entries h.filters t, hterms]
  rw [erased, erased, hpredicates, hbindings]
  rfl

theorem erased_eq_of_alike (h : o.Alike o') (hp : compile s name o = .ok p)
    (hp' : compile s name o' = .ok p') : p.erased = p'.erased := by
  obtain ⟨root, joined, t, hroot, -, hplan, rfl⟩ := compile_eq_ok.1 hp
  obtain ⟨root', joined', t', hroot', -, hplan', rfl⟩ := compile_eq_ok.1 hp'
  obtain rfl : root = root' := Except.ok.inj (hroot.symm.trans hroot')
  -- joins are planned without a look at filters and search
  have hsame : (o.planner s root).plan o.relations o.select o.sortBy (.ofRoot root.name) =
      (o'.planner s root).plan o'.relations o'.select o'.sortBy (.ofRoot root.name) := by
    obtain ⟨search, filters, rfl⟩ := h.exists_eq
    rfl
  obtain ⟨rfl, rfl⟩ : joined = joined' ∧ t = t' :=
    Prod.mk.inj (Except.ok.inj (hplan.symm.trans (hsame.trans hplan')))
  exact erased_assembled h root joined t

/-- The texts of both statements are the same under options that differ in values only. -/
theorem sql_eq_of_alike (h : o.Alike o') (hp : compile s name o = .ok p)
    (hp' : compile s name o' = .ok p') (d : Dialect) :
    ∃ page page' count count', p.selectStatement d = .ok page ∧ p'.selectStatement d = .ok page' ∧
      p.countStatement d = .ok count ∧ p'.countStatement d = .ok count' ∧
      page.sql = page'.sql ∧ count.sql = count'.sql := by
  obtain ⟨root, t, -, hc⟩ := compile_ok hp
  obtain ⟨root', t', -, hc'⟩ := compile_ok hp'
  have herased := erased_eq_of_alike h hp hp'
  refine ⟨_, _, _, _, hc.isBound.selectStatement d, hc'.isBound.selectStatement d,
    hc.isBound.countStatement d, hc'.isBound.countStatement d, ?_, ?_⟩
  · refine Draft.sql_eq_of_erased ?_ d
    rw [Draft.erased_select, Draft.erased_select, herased]
  · refine Draft.sql_eq_of_erased ?_ d
    rw [Draft.erased_count, Draft.erased_count, herased]

def plainValues : QueryOptions :=
  { relations := ["employee"], search := some " ops ", searchFields := ["employee.role"]
    filters := [⟨"amount", .isIn, .text "1, 2", none⟩, ⟨"id", .notIn, .null, none⟩,
      ⟨"amount", .between, .list [.int 1, .int 9], none⟩, ⟨"id", .between, .int 1, none⟩,
      ⟨"role", .like, .text "a", some "employee"⟩] }

def quotedValues : QueryOptions :=
  { plainValues with
    search := some "' OR 1 = 1 --"
    filters := [⟨"amount", .isIn, .list [.text "$9", .list []], none⟩,
      ⟨"id", .notIn, .list [], none⟩,
      ⟨"amount", .between, .list [.null, .text "?"], none⟩,
      ⟨"id", .between, .list [.int 1], none⟩,
      ⟨"role", .like, .text "a') UNION SELECT 1 --", some "employee"⟩] }

theorem sql_eq_of_alike_quoted : ∃ p p', compile payments "Payment" plainValues = .ok p ∧
    compile payments "Payment" quotedValues = .ok p' ∧
    ∃ page page', p.selectStatement .postgres = .ok page ∧
      p'.selectStatement .postgres = .ok page' ∧ page.sql = page'.sql := by
  have hplain : (compile payments "Payment" plainValues).toOption.map (·.rootName) =
      some "payment" := by
    have he : Path.expand plainValues.relations = ["employee"] :=
      Path.expand_eq_of_ascending (by decide +kernel)
    simp only [compile, ofChecked, JoinPlanner.plan, he]
    decide +kernel
  have hquoted : (compile payments "Payment" quotedValues).toOption.map (·.rootName) =
      some "payment" := by
    have he : Path.expand quotedValues.relations = ["employee"] :=
      Path.expand_eq_of_ascending (by decide +kernel)
    simp only [compile, ofChecked, JoinPlanner.plan, he]
    decide +kernel
  obtain ⟨p, hp, -⟩ := exists_ok_of_map hplain
  obtain ⟨p', hp', -⟩ := exists_ok_of_map hquoted
  have halike : plainValues.Alike quotedValues := {
    others := rfl
    search := by decide +kernel
    filters := .cons ⟨rfl, rfl, rfl, by decide, by decide, by decide⟩ <|
      .cons ⟨rfl, rfl, rfl, by decide, by decide, by decide⟩ <|
      .cons ⟨rfl, rfl, rfl, by decide, by decide, by decide⟩ <|
      .cons ⟨rfl, rfl, rfl, by decide, by decide, by decide⟩ <|
      .cons ⟨rfl, rfl, rfl, by decide, by decide, by decide⟩ .nil }
  obtain ⟨page, page', -, -, hpage, hpage', -, -, hsql, -⟩ :=
    sql_eq_of_alike halike hp hp' .postgres
  exact ⟨p, p', hp, hp', page, page', hpage, hpage', hsql⟩

end Plan

end Listing
