import Listing.Statement.Render
import Mathlib.Data.List.Basic

namespace Listing

namespace Plan

def params (p : Plan) : List String := p.predicates.flatMap (·.params)

end Plan

namespace Predicate

@[elab_as_elim]
theorem induction {motive : Predicate → Prop}
    (compare : ∀ c comparison n, motive (.compare c comparison n))
    (ilike : ∀ c n, motive (.ilike c n))
    (inList : ∀ c negated n empty, motive (.inList c negated n empty))
    (between : ∀ c low high, motive (.between c low high))
    (null : ∀ c negated, motive (.null c negated))
    (any : ∀ group, (∀ q ∈ group, motive q) → motive (.any group)) : ∀ q, motive q
  | .compare c comparison n => compare c comparison n
  | .ilike c n => ilike c n
  | .inList c negated n empty => inList c negated n empty
  | .between c low high => between c low high
  | .null c negated => null c negated
  | .any group => any group fun q _ ↦ induction compare ilike inList between null any q

theorem groupParams_eq (group : List Predicate) : groupParams group = group.flatMap params := by
  induction group with
  | nil => rfl
  | cons q qs ih => simp [groupParams, ih]

end Predicate

/-- What is written in the place of a parameter with this value. -/
def FilterValue.expanded : FilterValue → List FilterValue
  | list items => items
  | v => [v]

def Piece.value? : Piece → Option FilterValue
  | .value v => some v
  | _ => none

def Piece.unbound? : Piece → Option String
  | .unbound n => some n
  | _ => none

namespace Draft

theorem values_eq (draft : Draft) : draft.values = draft.filterMap Piece.value? := rfl

theorem unbound?_eq_none {draft : Draft} :
    draft.unbound? = none ↔ draft.filterMap Piece.unbound? = [] := by
  rw [unbound?, List.filterMap_eq_nil_iff, List.findSome?_eq_none_iff]
  exact Iff.rfl

theorem statement?_eq_ok {d : Dialect} {draft : Draft} {st : Statement} :
    draft.statement? d = .ok st ↔ draft.unbound? = none ∧ draft.statement d = st := by
  rw [statement?]
  cases draft.unbound? <;> simp

theorem separated_cons_cons (separator : String) (a b : Draft) (drafts : List Draft) :
    separated separator (a :: b :: drafts) =
      a ++ .word separator :: separated separator (b :: drafts) := by
  simp [separated, List.intercalate, List.intersperse]

@[simp] theorem separated_nil (separator : String) : separated separator [] = [] := rfl

@[simp] theorem separated_singleton (separator : String) (a : Draft) :
    separated separator [a] = a := by
  simp [separated, List.intercalate, List.intersperse]

theorem param_eq {b : Bindings} {n : String} {v : FilterValue} (h : b.get? n = some v) :
    param b n = separated ", " (v.expanded.map fun w ↦ [.value w]) := by
  rw [param, h]
  cases v <;> simp [FilterValue.expanded]

theorem predicates_eq (b : Bindings) (qs : List Predicate) :
    predicates b qs = qs.map (predicate b) := by
  induction qs with
  | nil => rfl
  | cons q qs ih => simp [predicates, ih]

section

variable {α : Type} {g : Piece → Option α}

theorem filterMap_separated (hword : ∀ text, g (.word text) = none) (separator : String)
    (drafts : List Draft) :
    (separated separator drafts).filterMap g = drafts.flatMap (List.filterMap g) := by
  induction drafts with
  | nil => rfl
  | cons a drafts ih =>
    cases drafts with
    | nil => simp
    | cons b drafts =>
      rw [separated_cons_cons, List.filterMap_append,
        List.filterMap_cons_none (hword separator), ih]
      rfl

theorem values_param {b : Bindings} {n : String} {v : FilterValue} (h : b.get? n = some v) :
    values (param b n) = v.expanded := by
  rw [param_eq h, values, filterMap_separated fun _ ↦ rfl, List.flatMap_map]
  exact List.flatMap_singleton' v.expanded

/-- A reading of pieces that passes over words and names, and so sees only the places of
parameters. -/
structure SeesParams (g : Piece → Option α) : Prop where
  word : ∀ text, g (.word text) = none
  name : ∀ n, g (.name n) = none

theorem seesParams_value : SeesParams Piece.value? := ⟨fun _ ↦ rfl, fun _ ↦ rfl⟩

theorem seesParams_unbound : SeesParams Piece.unbound? := ⟨fun _ ↦ rfl, fun _ ↦ rfl⟩

variable (h : SeesParams g)

include h

theorem filterMap_column (c : ColumnRef) : (column c).filterMap g = [] := by
  simp [column, h.word, h.name]

theorem filterMap_columns (cs : List ColumnRef) : (columns cs).filterMap g = [] := by
  rw [columns, filterMap_separated h.word, List.flatMap_map, List.flatMap_eq_nil_iff]
  exact fun c _ ↦ filterMap_column h c

theorem filterMap_predicate (b : Bindings) (q : Predicate) :
    (predicate b q).filterMap g = q.params.flatMap fun n ↦ (param b n).filterMap g := by
  induction q using Predicate.induction with
  | inList c negated n empty =>
    cases empty <;> simp [predicate, Predicate.params, filterMap_column h, h.word]
  | any group ih =>
    simp only [predicate, Predicate.params, predicates_eq, Predicate.groupParams_eq,
      List.filterMap_cons_none (h.word _), List.filterMap_append, filterMap_separated h.word,
      List.flatMap_map, List.flatMap_assoc]
    simpa [h.word] using List.flatMap_congr ih
  | compare | ilike | between | null =>
    simp [predicate, Predicate.params, filterMap_column h, h.word]

theorem filterMap_conjunction (p : Plan) :
    (conjunction p).filterMap g = p.params.flatMap fun n ↦ (param p.bindings n).filterMap g := by
  simp only [conjunction, filterMap_separated h.word, List.flatMap_map, filterMap_predicate h,
    Plan.params, List.flatMap_assoc]

theorem filterMap_selection (p : Plan) : (selection p).filterMap g = [] := by
  rw [selection]
  split
  · simp [h.word, h.name]
  · simp [filterMap_separated h.word, List.flatMap_map, selected, filterMap_column h, h.word,
      h.name]

theorem filterMap_join (j : Join) : (join j).filterMap g = [] := by
  have hpairs : (separated " AND " (j.on.map equal)).filterMap g = [] := by
    simp [filterMap_separated h.word, List.flatMap_map, equal, filterMap_column h, h.word]
  rw [join]
  cases j.link <;> cases j.softDelete <;>
    simp [link, equal, hpairs, filterMap_column h, h.word, h.name]

theorem filterMap_tables (p : Plan) : (tables p).filterMap g = [] := by
  have hjoins : (p.joins.flatMap join).filterMap g = [] := by
    simp [List.filterMap_flatMap, filterMap_join h]
  simp [tables, hjoins, h.word, h.name]

theorem filterMap_ordering (p : Plan) (grouped : Bool) : (ordering p grouped).filterMap g = [] := by
  have hordered : ∀ o, (ordered grouped o).filterMap g = [] := fun o ↦ by
    cases grouped <;> simp [ordered, filterMap_column h, h.word]
  rw [ordering]
  split
  · rfl
  · simp [filterMap_separated h.word, List.flatMap_map, hordered, h.word]

theorem filterMap_body (p : Plan) : (body p).filterMap g = (conjunction p).filterMap g := by
  rw [body, restriction]
  by_cases hnone : p.predicates = []
  · simp [filterMap_tables h, conjunction, hnone]
  · simp [filterMap_tables h, hnone, h.word]

theorem filterMap_pageKeys (p : Plan) :
    (pageKeys p).filterMap g = (conjunction p).filterMap g := by
  have houter : (if 1 < p.primaryKey.length then
      .word "(" :: (columns p.rootKeys ++ [.word ")"])
      else columns p.rootKeys).filterMap g = [] := by
    split <;> simp [filterMap_columns h, h.word]
  simp only [pageKeys, List.filterMap_append, houter]
  simp [filterMap_columns h, filterMap_body h, filterMap_ordering h, window, h.word, h.name]

/-- Under a join to many the predicates are written twice. -/
theorem filterMap_select (p : Plan) :
    (select p).filterMap g = (conjunction p).filterMap g ++
      if p.hasToMany then (conjunction p).filterMap g else [] := by
  rw [select, List.filterMap_cons_none (h.word _), List.filterMap_append, filterMap_selection h,
    List.nil_append]
  split
  · simp only [List.filterMap_append, filterMap_tables h, filterMap_pageKeys h,
      filterMap_ordering h, List.nil_append, List.append_nil]
    congr 1
    by_cases hnone : p.predicates = []
    · simp [conjunction, hnone, h.word]
    · simp [hnone, h.word]
  · simp [filterMap_body h, filterMap_ordering h, window, h.word]

theorem filterMap_countedKeys (d : Dialect) (keys : List ColumnRef) :
    (countedKeys d keys).filterMap g = [] := by
  unfold countedKeys
  split
  · exact filterMap_column h _
  · cases d <;> simp [filterMap_columns h, filterMap_separated h.word, List.flatMap_map,
      filterMap_column h, h.word]

theorem filterMap_count (d : Dialect) (p : Plan) :
    (count d p).filterMap g = (conjunction p).filterMap g := by
  simp [count, filterMap_countedKeys h, filterMap_body h, h.word, h.name]

end

theorem values_append (x y : Draft) : values (x ++ y) = values x ++ values y :=
  List.filterMap_append

theorem values_columns (cs : List ColumnRef) : values (columns cs) = [] :=
  filterMap_columns seesParams_value cs

theorem values_selection (p : Plan) : values (selection p) = [] :=
  filterMap_selection seesParams_value p

theorem values_tables (p : Plan) : values (tables p) = [] := filterMap_tables seesParams_value p

end Draft

end Listing
