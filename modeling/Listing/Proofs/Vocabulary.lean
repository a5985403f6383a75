import Listing.Proofs.Scopes
import Listing.Proofs.Spacing

namespace Listing.Draft

def vocabulary : List String :=
  ["SELECT ", " AS ", ".*", ".", ", ", " FROM ", " LEFT JOIN ", " ON ", " = ", " AND ", " IS NULL",
    " IS NOT NULL", " WHERE ", " WHERE (", ") AND ", " ", "=", "!=", "LIKE", ">", ">=", "<", "<=",
    "LOWER(", ") LIKE LOWER(", "TRUE", "FALSE", " IN (", " NOT IN (", " BETWEEN ", " OR ", "(", ")",
    " IN (SELECT ", " FROM (SELECT ", " GROUP BY ", " ORDER BY ", "MIN(", "MAX(", "ASC", "DESC",
    ") AS ", "SELECT COUNT(DISTINCT ", " || '|' || "]

def columnWords : List String := [".", ", "]

def selectionWords : List String := [".", ", ", " AS ", ".*"]

def joinWords : List String :=
  [".", ", ", " AS ", " LEFT JOIN ", " ON ", " = ", " AND ", " IS NULL"]

def tableWords : List String :=
  [".", ", ", " AS ", ".*", " FROM ", " LEFT JOIN ", " ON ", " = ", " AND ", " IS NULL"]

def keyWords : List String := [".", ", ", "(", ")", " || '|' || "]

def conditionWords : List String :=
  [".", ", ", " ", "=", "!=", "LIKE", ">", ">=", "<", "<=", "LOWER(", ") LIKE LOWER(", "TRUE",
    "FALSE", " IN (", " NOT IN (", " BETWEEN ", " AND ", " IS NULL", " IS NOT NULL", " OR ", "(",
    ")"]

def orderWords : List String := [" ORDER BY ", ".", ", ", "MIN(", "MAX(", ")", " ", "ASC", "DESC"]

/-- Whether all words are among the given ones, and one follows every name and every value. -/
def IsOf (words : List String) : Draft → Prop
  | [] => True
  | .word text :: ps => text ∈ words ∧ IsOf words ps
  | .name _ :: ps | .value _ :: ps | .unbound _ :: ps => EndsPiece ps ∧ IsOf words ps

variable {words words' : List String} {a b : Draft} {separator text : String}

theorem IsOf.isSpaced (h : IsOf words a) (hwords : ∀ text ∈ words, isWord text) : IsSpaced a := by
  induction a with
  | nil => trivial
  | cons piece ps ih =>
    cases piece with
    | word text => exact ⟨hwords text h.1, ih h.2⟩
    | name | value | unbound => exact ⟨h.1, ih h.2⟩

theorem IsOf.mono (h : IsOf words a) (hwords : words ⊆ words') : IsOf words' a := by
  induction a with
  | nil => trivial
  | cons piece ps ih =>
    cases piece with
    | word => exact ⟨hwords h.1, ih h.2⟩
    | name | value | unbound => exact ⟨h.1, ih h.2⟩

theorem IsOf.append (ha : IsOf words a) (hb : IsOf words b) (he : EndsPiece b) :
    IsOf words (a ++ b) := by
  induction a with
  | nil => exact hb
  | cons piece ps ih =>
    cases piece with
    | word => exact ⟨ha.1, ih ha.2⟩
    | name | value | unbound => exact ⟨ha.1.append he, ih ha.2⟩

theorem IsOf.append_word (ha : IsOf words a) (ht : text ∈ words) (hb : IsOf words b) :
    IsOf words (a ++ .word text :: b) := ha.append ⟨ht, hb⟩ trivial

theorem isOf_separated {β : Type} {f : β → Draft} {l : List β} (hs : separator ∈ words)
    (h : ∀ x ∈ l, IsOf words (f x)) : IsOf words (separated separator (l.map f)) := by
  induction l with
  | nil => trivial
  | cons x l ih =>
    obtain ⟨hx, hl⟩ := List.forall_mem_cons.1 h
    cases l with
    | nil => simpa using hx
    | cons y l =>
      rw [List.map_cons, List.map_cons, separated_cons_cons]
      exact hx.append_word hs (ih hl)

theorem isOf_column (c : ColumnRef) : IsOf columnWords (column c) :=
  ⟨trivial, by decide, trivial, trivial⟩

theorem isOf_columns (cs : List ColumnRef) : IsOf columnWords (columns cs) :=
  isOf_separated (by decide) fun c _ ↦ isOf_column c

theorem isOf_countedKeys (d : Dialect) (keys : List ColumnRef) :
    IsOf keyWords (countedKeys d keys) := by
  have hcolumn (c : ColumnRef) : IsOf keyWords (column c) := (isOf_column c).mono (by decide)
  have hcolumns : IsOf keyWords (columns keys) := (isOf_columns keys).mono (by decide)
  unfold countedKeys
  split
  · exact hcolumn _
  · cases d with
    | postgres => exact ⟨by decide, hcolumns.append_word (by decide) trivial⟩
    | mysql => exact hcolumns
    | sqlite => exact isOf_separated (by decide) fun c _ ↦ hcolumn c

theorem isOf_param (b : Bindings) (n : String) : IsOf columnWords (param b n) := by
  rw [param]
  split
  · exact ⟨trivial, trivial⟩
  · exact isOf_separated (by decide) fun _ _ ↦ ⟨trivial, trivial⟩
  · exact ⟨trivial, trivial⟩

theorem isOf_selection (p : Plan) : IsOf selectionWords (selection p) := by
  rw [selection]
  split
  · exact ⟨trivial, by decide, trivial⟩
  · exact isOf_separated (by decide) fun c _ ↦
      ((isOf_column c.column).mono (by decide)).append_word (by decide) ⟨trivial, trivial⟩

theorem isOf_equal (pair : ColumnRef × ColumnRef) : IsOf joinWords (equal pair) :=
  ((isOf_column pair.1).mono (by decide)).append_word (by decide)
    ((isOf_column pair.2).mono (by decide))

theorem isOf_link (l : Link) : IsOf joinWords (link l) :=
  ⟨by decide, trivial, by decide, trivial, by decide, isOf_equal l.onParent⟩

theorem isOf_join (j : Join) : IsOf joinWords (join j) := by
  have hon : IsOf joinWords (separated " AND " (j.on.map equal)) :=
    isOf_separated (by decide) fun pair _ ↦ isOf_equal pair
  rw [join]
  refine IsOf.append_word ?_ (by decide) ⟨trivial, by decide, trivial, by decide, ?_⟩
  · cases j.link with
    | none => trivial
    | some l => exact isOf_link l
  · cases j.softDelete with
    | none => simpa using hon
    | some c =>
      exact hon.append_word (by decide)
        (((isOf_column c).mono (by decide)).append_word (by decide) trivial)

theorem endsPiece_join (j : Join) : EndsPiece (join j) := by
  rw [join]
  cases j.link <;> trivial

theorem isOf_joins (js : List Join) :
    EndsPiece (js.flatMap join) ∧ IsOf joinWords (js.flatMap join) := by
  induction js with
  | nil => exact ⟨trivial, trivial⟩
  | cons j js ih =>
    rw [List.flatMap_cons]
    exact ⟨(endsPiece_join j).append ih.1, (isOf_join j).append ih.2 ih.1⟩

theorem isOf_tables (p : Plan) : IsOf tableWords (tables p) :=
  ⟨by decide, trivial, by decide, (isOf_joins p.joins).1,
    (isOf_joins p.joins).2.mono (by decide)⟩

theorem isOf_predicate (b : Bindings) (q : Predicate) : IsOf conditionWords (predicate b q) := by
  have hcolumn (c : ColumnRef) : IsOf conditionWords (column c) := (isOf_column c).mono (by decide)
  have hparam (n : String) : IsOf conditionWords (param b n) := (isOf_param b n).mono (by decide)
  induction q using Predicate.induction with
  | compare c comparison n =>
    have hcomparison : comparison.sql ∈ conditionWords := by cases comparison <;> decide
    exact (hcolumn c).append_word (by decide) ⟨hcomparison, by decide, hparam n⟩
  | ilike c n =>
    exact ⟨by decide, (hcolumn c).append_word (by decide)
      ((hparam n).append_word (by decide) trivial)⟩
  | inList c negated n empty =>
    rw [predicate]
    split
    · exact ⟨by cases negated <;> decide, trivial⟩
    · exact (hcolumn c).append_word (by cases negated <;> decide)
        ((hparam n).append_word (by decide) trivial)
  | between c low high =>
    exact (hcolumn c).append_word (by decide) ((hparam low).append_word (by decide) (hparam high))
  | null c negated =>
    exact (hcolumn c).append_word (by cases negated <;> decide) trivial
  | any group ih =>
    rw [predicate, predicates_eq]
    exact ⟨by decide, (isOf_separated (by decide) ih).append_word (by decide) trivial⟩

theorem isOf_conjunction (p : Plan) : IsOf conditionWords (conjunction p) :=
  isOf_separated (by decide) fun q _ ↦ isOf_predicate p.bindings q

theorem isOf_ordered (grouped : Bool) (o : OrderBy) : IsOf orderWords (ordered grouped o) := by
  have hcolumn : IsOf orderWords (column o.column) := (isOf_column o.column).mono (by decide)
  have horder : o.order.sql ∈ orderWords := by cases o.order <;> decide
  rw [ordered]
  refine IsOf.append_word ?_ (by decide) ⟨horder, trivial⟩
  cases grouped with
  | false => exact hcolumn
  | true => exact ⟨by cases o.order <;> decide, hcolumn.append_word (by decide) trivial⟩

theorem isOf_ordering (p : Plan) (grouped : Bool) :
    EndsPiece (ordering p grouped) ∧ IsOf orderWords (ordering p grouped) := by
  rw [ordering]
  split
  · exact ⟨trivial, trivial⟩
  · exact ⟨trivial, by decide, isOf_separated (by decide) fun o _ ↦ isOf_ordered grouped o⟩

abbrev IsUsual : Draft → Prop := IsOf vocabulary

theorem isUsual_columns (cs : List ColumnRef) : IsUsual (columns cs) :=
  (isOf_columns cs).mono (by decide)

theorem isUsual_conjunction (p : Plan) : IsUsual (conjunction p) :=
  (isOf_conjunction p).mono (by decide)

theorem isUsual_selection (p : Plan) : IsUsual (selection p) := (isOf_selection p).mono (by decide)

theorem isUsual_tables (p : Plan) : IsUsual (tables p) := (isOf_tables p).mono (by decide)

theorem isUsual_body (p : Plan) : IsUsual (body p) := by
  rw [body, restriction]
  split
  · simpa using isUsual_tables p
  · exact (isUsual_tables p).append_word (by decide) (isUsual_conjunction p)

theorem isUsual_ordering (p : Plan) (grouped : Bool) :
    EndsPiece (ordering p grouped) ∧ IsUsual (ordering p grouped) :=
  (isOf_ordering p grouped).imp_right (·.mono (by decide))

theorem isUsual_count (d : Dialect) (p : Plan) : IsUsual (count d p) :=
  ⟨by decide, ((isOf_countedKeys d p.rootKeys).mono (by decide)).append_word (by decide)
    ⟨trivial, isUsual_body p⟩⟩

theorem isUsual_pageKeysOpening (p : Plan) : IsUsual (pageKeysOpening p) := by
  have hkeys := isUsual_columns p.rootKeys
  rw [pageKeysOpening]
  apply IsOf.append_word _ (by decide) ((isUsual_columns _).append_word (by decide) hkeys)
  split
  · exact ⟨by decide, hkeys.append_word (by decide) trivial⟩
  · exact hkeys

theorem isUsual_pageHead (p : Plan) : IsUsual (pageHead p) := by
  have hselection : IsUsual (.word "SELECT " :: selection p ++ tables p) :=
    ⟨by decide, (isUsual_selection p).append (isUsual_tables p) trivial⟩
  have hkeys := isUsual_pageKeysOpening p
  rw [pageHead]
  by_cases hmany : p.hasToMany
  · rw [if_pos hmany]
    -- a word stands before the keys, with the predicates before it or without any
    cases hnone : p.predicates.isEmpty with
    | true =>
      have hconjunction : conjunction p = [] := by simp [conjunction, List.isEmpty_iff.1 hnone]
      have hrows : IsUsual (.word "SELECT " :: selection p ++ tables p ++
          .word " WHERE " :: pageKeysOpening p) :=
        hselection.append_word (by decide) hkeys
      simpa [scope, rowScope, hmany, hnone, hconjunction] using hrows
    | false =>
      have hrows : IsUsual (.word "SELECT " :: selection p ++ tables p ++
          .word " WHERE (" :: (conjunction p ++ .word ") AND " :: pageKeysOpening p)) :=
        hselection.append_word (by decide) ((isUsual_conjunction p).append_word (by decide) hkeys)
      simpa [scope, rowScope, hmany, hnone] using hrows
  · rw [if_neg hmany]
    exact ⟨by decide, isUsual_selection p⟩

/-- The window is the only part of a page that is not of the vocabulary. -/
theorem select_window (p : Plan) : ∃ before after, select p = before ++ window p ++ after ∧
    IsUsual before ∧ IsUsual after ∧ EndsPiece after := by
  have hbody := (isUsual_pageHead p).append (isUsual_body p) trivial
  obtain ⟨hends, hordering⟩ := isUsual_ordering p false
  rw [select_eq_body, pageTail]
  split
  · obtain ⟨hends', hordering'⟩ := isUsual_ordering p true
    refine ⟨pageHead p ++ body p ++ .word " GROUP BY " :: (columns p.rootKeys ++ ordering p true),
      .word ") AS " :: .name pageKeysName :: .word ")" :: ordering p false, ?_, ?_, ?_, trivial⟩
    · simp [pageKeysClosing]
    · exact hbody.append_word (by decide) ((isUsual_columns _).append hordering' hends')
    · exact ⟨by decide, trivial, by decide, hordering⟩
  · exact ⟨pageHead p ++ body p ++ ordering p false, [], by simp, hbody.append hordering hends,
      trivial, trivial⟩

theorem isWord_vocabulary : ∀ text ∈ vocabulary, isWord text := by decide

theorem isSpaced_body (p : Plan) : IsSpaced (body p) := (isUsual_body p).isSpaced isWord_vocabulary

theorem isSpaced_count (d : Dialect) (p : Plan) : IsSpaced (count d p) :=
  (isUsual_count d p).isSpaced isWord_vocabulary

theorem isSpaced_select (p : Plan) : IsSpaced (select p) := by
  obtain ⟨before, after, hselect, hbefore, hafter, hends⟩ := select_window p
  have hsubset : vocabulary ⊆ p.window.sql :: vocabulary := List.subset_cons_self _ _
  have hwindow : IsOf (p.window.sql :: vocabulary) (window p) :=
    ⟨List.mem_cons_of_mem _ (by decide), List.mem_cons_self, trivial⟩
  have hall := ((hbefore.mono hsubset).append hwindow trivial).append (hafter.mono hsubset) hends
  rw [hselect]
  exact hall.isSpaced (List.forall_mem_cons.2 ⟨isWord_window p.window, isWord_vocabulary⟩)

end Listing.Draft
