import Listing.Proofs.Outcome
import Listing.Proofs.Vocabulary

namespace Listing

namespace ColumnRef

def quoted (c : ColumnRef) : List String := [c.table, c.column]

end ColumnRef

namespace Predicate

mutual

/-- The columns that a predicate is written with. One that has no members is written without. -/
def shown : Predicate → List ColumnRef
  | compare c _ _ | ilike c _ | between c _ _ | null c _ => [c]
  | inList c _ _ empty => if empty then [] else [c]
  | any group => groupShown group

def groupShown : List Predicate → List ColumnRef
  | [] => []
  | q :: qs => q.shown ++ groupShown qs

end

theorem groupShown_eq (group : List Predicate) : groupShown group = group.flatMap shown := by
  induction group with
  | nil => rfl
  | cons q qs ih => simp [groupShown, ih]

end Predicate

def SelectColumn.quoted (c : SelectColumn) : List String := c.column.quoted ++ [c.output]

def Link.quoted (l : Link) : List String :=
  [l.table, l.name] ++ l.onParent.1.quoted ++ l.onParent.2.quoted

def Join.quoted (j : Join) : List String :=
  j.link.toList.flatMap Link.quoted ++ [j.table, j.name] ++
    j.on.flatMap (fun pair ↦ pair.1.quoted ++ pair.2.quoted) ++
    j.softDelete.toList.flatMap ColumnRef.quoted

namespace Plan

def quotedSelection (p : Plan) : List String :=
  if p.select.isEmpty then [p.rootName] else p.select.flatMap SelectColumn.quoted

def quotedTables (p : Plan) : List String :=
  [p.rootTable, p.rootName] ++ p.joins.flatMap Join.quoted

def quotedPredicates (p : Plan) : List String :=
  (p.predicates.flatMap Predicate.shown).flatMap ColumnRef.quoted

def quotedKeys (p : Plan) : List String := p.rootKeys.flatMap ColumnRef.quoted

def quotedOrder (p : Plan) : List String :=
  (Draft.fullOrder p).flatMap fun o ↦ o.column.quoted

/-- The names of a plan in the order in which the statement of a page is written. -/
def quotedOnPage (p : Plan) : List String :=
  p.quotedSelection ++ p.quotedTables ++ p.quotedPredicates ++
    if p.hasToMany then
      p.quotedKeys ++ p.primaryKey.flatMap (fun c ↦ [Draft.pageKeysName, c]) ++
        (p.quotedKeys ++ p.quotedTables ++ p.quotedPredicates ++ p.quotedKeys ++ p.quotedOrder) ++
        [Draft.pageKeysName] ++ p.quotedOrder
    else p.quotedOrder

def quotedInCount (p : Plan) : List String :=
  p.quotedKeys ++ ["total"] ++ p.quotedTables ++ p.quotedPredicates

end Plan

namespace Draft

@[simp] theorem quoted_nil : quoted [] = [] := rfl

@[simp] theorem quoted_word (text : String) (ps : Draft) : quoted (.word text :: ps) = ps.quoted :=
  rfl

@[simp] theorem quoted_name (n : String) (ps : Draft) :
    quoted (.name n :: ps) = n :: ps.quoted := rfl

@[simp] theorem quoted_value (v : FilterValue) (ps : Draft) :
    quoted (.value v :: ps) = ps.quoted := rfl

@[simp] theorem quoted_unbound (n : String) (ps : Draft) :
    quoted (.unbound n :: ps) = ps.quoted := rfl

@[simp] theorem quoted_append (a b : Draft) : quoted (a ++ b) = a.quoted ++ b.quoted :=
  List.filterMap_append

theorem quoted_separated_map {β : Type} (separator : String) (f : β → Draft) (l : List β) :
    quoted (separated separator (l.map f)) = l.flatMap fun x ↦ (f x).quoted := by
  rw [quoted, filterMap_separated (fun _ ↦ rfl), List.flatMap_map]
  rfl

@[simp] theorem quoted_column (c : ColumnRef) : (column c).quoted = c.quoted := rfl

theorem quoted_columns (cs : List ColumnRef) :
    (columns cs).quoted = cs.flatMap ColumnRef.quoted := by
  simp [columns, quoted_separated_map]

theorem quoted_param (b : Bindings) (n : String) : (param b n).quoted = [] := by
  rw [param]
  split <;> simp [quoted_separated_map]

theorem quoted_predicate (b : Bindings) (q : Predicate) :
    (predicate b q).quoted = q.shown.flatMap ColumnRef.quoted := by
  induction q using Predicate.induction with
  | inList c negated n empty =>
    cases empty <;> simp [predicate, Predicate.shown, quoted_param]
  | any group ih =>
    simp only [predicate, predicates_eq, quoted_word, quoted_append, quoted_separated_map,
      quoted_nil, List.append_nil, Predicate.shown, Predicate.groupShown_eq, List.flatMap_assoc]
    exact List.flatMap_congr ih
  | compare | ilike | between | null => simp [predicate, Predicate.shown, quoted_param]

theorem quoted_conjunction (p : Plan) : (conjunction p).quoted = p.quotedPredicates := by
  simp [conjunction, quoted_separated_map, quoted_predicate, Plan.quotedPredicates,
    List.flatMap_assoc]

theorem quoted_selection (p : Plan) : (selection p).quoted = p.quotedSelection := by
  rw [selection, Plan.quotedSelection]
  split
  · rfl
  · rw [quoted_separated_map]
    exact List.flatMap_congr fun c _ ↦ by simp [selected, SelectColumn.quoted]

theorem quoted_join (j : Join) : (join j).quoted = j.quoted := by
  rw [join, Join.quoted]
  cases j.link <;> cases j.softDelete <;>
    simp [link, equal, Link.quoted, quoted_separated_map]

theorem quoted_tables (p : Plan) : (tables p).quoted = p.quotedTables := by
  have hjoins : quoted (p.joins.flatMap join) = p.joins.flatMap Join.quoted := by
    rw [quoted, List.filterMap_flatMap]
    exact List.flatMap_congr fun j _ ↦ quoted_join j
  simp [tables, hjoins, Plan.quotedTables]

theorem quoted_restriction (p : Plan) : (restriction p).quoted = p.quotedPredicates := by
  rw [restriction]
  by_cases hnone : p.predicates = []
  · simp [Plan.quotedPredicates, hnone]
  · simp [hnone, quoted_conjunction]

theorem quoted_ordering (p : Plan) (grouped : Bool) :
    (ordering p grouped).quoted = p.quotedOrder := by
  have hordered (o : OrderBy) : (ordered grouped o).quoted = o.column.quoted := by
    cases grouped <;> simp [ordered]
  rw [ordering, Plan.quotedOrder]
  cases fullOrder p with
  | nil => rfl
  | cons o orders =>
    rw [quoted_word, quoted_separated_map]
    exact List.flatMap_congr fun o _ ↦ hordered o

theorem quoted_pageKeys (p : Plan) : (pageKeys p).quoted =
    p.quotedKeys ++ p.primaryKey.flatMap (fun c ↦ [pageKeysName, c]) ++
      (p.quotedKeys ++ p.quotedTables ++ p.quotedPredicates ++ p.quotedKeys ++ p.quotedOrder) ++
      [pageKeysName] := by
  have houter : quoted (if 1 < p.primaryKey.length then
      .word "(" :: (columns p.rootKeys ++ [.word ")"]) else columns p.rootKeys) = p.quotedKeys := by
    split <;> simp [quoted_columns, Plan.quotedKeys]
  have hpage : (columns (p.primaryKey.map fun c ↦ ⟨pageKeysName, c⟩)).quoted =
      p.primaryKey.flatMap fun c ↦ [pageKeysName, c] := by
    rw [quoted_columns, List.flatMap_map]
    rfl
  have hkeys : (columns p.rootKeys).quoted = p.quotedKeys := quoted_columns _
  simp [pageKeys, houter, hpage, hkeys, body, quoted_tables, quoted_restriction, quoted_ordering,
    window]

theorem quoted_select (p : Plan) : (select p).quoted = p.quotedOnPage := by
  have hwhere : quoted (if p.predicates.isEmpty then [.word " WHERE "]
      else .word " WHERE (" :: (conjunction p ++ [.word ") AND "])) = p.quotedPredicates := by
    by_cases hnone : p.predicates = []
    · simp [Plan.quotedPredicates, hnone]
    · simp [hnone, quoted_conjunction]
  rw [select, Plan.quotedOnPage]
  split
  · simp only [quoted_word, quoted_append, quoted_selection, quoted_tables, hwhere,
      quoted_pageKeys, quoted_ordering, List.append_assoc]
  · simp [quoted_selection, body, quoted_tables, quoted_restriction, quoted_ordering, window]

theorem quoted_count (d : Dialect) (p : Plan) : (count d p).quoted = p.quotedInCount := by
  have hkeys : (countedKeys d p.rootKeys).quoted = p.quotedKeys := by
    unfold countedKeys
    rw [Plan.quotedKeys]
    split
    · next hkey => simp [hkey]
    · cases d <;> simp [quoted_columns, quoted_separated_map]
  simp [count, hkeys, body, quoted_tables, quoted_restriction, Plan.quotedInCount]

end Draft

/-- Reading a statement leads through these names, ends outside them, and meets the placeholders of
the values, one for each. -/
structure Statement.IsRead (st : Statement) (d : Dialect) (names : List String)
    (lexemes : List Lexeme) : Prop where
  scan : Lexeme.scan d.mark st.sql = some lexemes
  names : Lexeme.names lexemes = names
  placeholders : Lexeme.placeholders d.sign lexemes =
    (List.range' 1 st.params.length).map d.placeholder

theorem Draft.IsSpaced.isRead {draft : Draft} (h : draft.IsSpaced) (d : Dialect) :
    ∃ lexemes, (draft.statement d).IsRead d draft.quoted lexemes := by
  exact ⟨draft.lexemesFrom d 0, h.scan, Draft.names_lexemesFrom 0,
    Draft.placeholders_lexemesFrom h 0⟩

namespace Plan

/-- Whatever its names are, the statements of a plan are read as they were written. -/
theorem isRead_statements (p : Plan) (d : Dialect) :
    (∀ st, p.selectStatement d = .ok st → ∃ lexemes, st.IsRead d p.quotedOnPage lexemes) ∧
      ∀ st, p.countStatement d = .ok st → ∃ lexemes, st.IsRead d p.quotedInCount lexemes := by
  constructor
  · intro st h
    obtain ⟨-, rfl⟩ := Draft.statement?_eq_ok.1 h
    rw [← Draft.quoted_select]
    exact (Draft.isSpaced_select p).isRead d
  · intro st h
    obtain ⟨-, rfl⟩ := Draft.statement?_eq_ok.1 h
    rw [← Draft.quoted_count d]
    exact (Draft.isSpaced_count d p).isRead d

def disguised : Plan :=
  { rootEntity := "Quote", rootTable := "a\"b", rootName := "$1", primaryKey := ["?"]
    joins := [{
      path := "x", name := "", parentName := "$1", table := "\x60", kind := .oneToMany
      many := true, mode := .projected, on := [(⟨"", "\""⟩, ⟨"$1", "?"⟩)], softDelete := none
      link := none, columns := [], primaryKey := [] }]
    select := [⟨⟨"$1", "?"⟩, "\"\""⟩]
    predicates := [.inList ⟨"$1", "$2"⟩ false "v" false]
    bindings := [("v", .list [.text "\" $9 ?", .null])]
    order := [], window := ⟨0, 10⟩ }

theorem isRead_statements_disguised : ∃ st, disguised.selectStatement .postgres = .ok st ∧
    st.params.length = 4 ∧ ∃ lexemes, st.IsRead .postgres disguised.quotedOnPage lexemes := by
  have hst : (disguised.selectStatement .postgres).toOption.map (·.params.length) = some 4 := by
    decide +kernel
  obtain ⟨st, hst, hparams⟩ := exists_ok_of_map hst
  exact ⟨st, hst, hparams, (isRead_statements disguised .postgres).1 st hst⟩

end Plan

end Listing
