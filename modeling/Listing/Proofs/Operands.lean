import Listing.Proofs.Parameters
import Listing.Proofs.Written

namespace Listing

/-- Whether one placeholder is written for a value. -/
def FilterValue.isSingle (v : FilterValue) : Bool := v.expanded.length == 1

namespace FilterCondition

/-- The operands of a filter that are one value each; the operand of a membership is a list. -/
def operands (f : FilterCondition) : List FilterValue :=
  match f.operator with
  | .isIn | .notIn => []
  | _ => f.bound

/-- Whether a filter has one placeholder for each of these operands. -/
def bindsSingles (f : FilterCondition) : Bool := f.operands.all FilterValue.isSingle

end FilterCondition

namespace Predicate

/-- Whether a predicate that is no group is written with one placeholder for every operand, and a
list with one for every member. -/
def IsWrittenAs (d : Dialect) (b : Bindings) (text : String) : Predicate → Prop
  | compare c comparison _ =>
    ∃ i, text = d.column c ++ " " ++ comparison.sql ++ " " ++ d.placeholder i
  | ilike c _ => ∃ i, text = "LOWER(" ++ d.column c ++ ") LIKE LOWER(" ++ d.placeholder i ++ ")"
  | inList c negated n empty =>
    if empty then text = truth negated
    else ∃ items i, b.get? n = some (.list items) ∧ items ≠ [] ∧
      text = d.column c ++ (if negated then " NOT IN (" else " IN (") ++
        d.placeholders i items.length ++ ")"
  | between c _ _ =>
    ∃ i j, text = d.column c ++ " BETWEEN " ++ (d.placeholder i ++ " AND " ++ d.placeholder j)
  | null c negated => text = d.column c ++ if negated then " IS NOT NULL" else " IS NULL"
  | any _ => False

/-- The values of the operands of a predicate, besides a list that it asks for. -/
inductive Operands (b : Bindings) : Predicate → List FilterValue → Prop
  | compare {c : ColumnRef} {comparison : Comparison} {n : String} {v : FilterValue} :
      b.get? n = some v → Operands b (.compare c comparison n) [v]
  | ilike {c : ColumnRef} {n : String} {v : FilterValue} :
      b.get? n = some v → Operands b (.ilike c n) [v]
  | inList {c : ColumnRef} {negated : Bool} {n : String} {items : List FilterValue} :
      b.get? n = some (.list items) → items ≠ [] → Operands b (.inList c negated n false) []
  | empty {c : ColumnRef} {negated : Bool} {n : String} : Operands b (.inList c negated n true) []
  | between {c : ColumnRef} {low high : String} {v w : FilterValue} :
      b.get? low = some v → b.get? high = some w → Operands b (.between c low high) [v, w]
  | null {c : ColumnRef} {negated : Bool} : Operands b (.null c negated) []

variable {d : Dialect} {b : Bindings} {bound : Nat} {q : Predicate} {vs : List FilterValue}

theorem written_compare {c : ColumnRef} {comparison : Comparison} {n : String} {v : FilterValue}
    (h : b.get? n = some v) :
    Draft.written d bound (Draft.predicate b (.compare c comparison n)) =
      d.column c ++ " " ++ comparison.sql ++ " " ++
        d.placeholders (bound + 1) v.expanded.length := by
  simp [Draft.predicate, Draft.written_append, Draft.written_param h, String.append_assoc]

theorem written_ilike {c : ColumnRef} {n : String} {v : FilterValue} (h : b.get? n = some v) :
    Draft.written d bound (Draft.predicate b (.ilike c n)) =
      "LOWER(" ++ d.column c ++ ") LIKE LOWER(" ++
        d.placeholders (bound + 1) v.expanded.length ++ ")" := by
  simp [Draft.predicate, Draft.written_append, Draft.written_param h, String.append_assoc]

theorem written_inList {c : ColumnRef} {negated : Bool} {n : String} {v : FilterValue}
    (h : b.get? n = some v) :
    Draft.written d bound (Draft.predicate b (.inList c negated n false)) =
      d.column c ++ (if negated then " NOT IN (" else " IN (") ++
        d.placeholders (bound + 1) v.expanded.length ++ ")" := by
  simp [Draft.predicate, Draft.written_append, Draft.written_param h, String.append_assoc]

theorem written_between {c : ColumnRef} {low high : String} {v w : FilterValue}
    (hlow : b.get? low = some v) (hhigh : b.get? high = some w) :
    Draft.written d bound (Draft.predicate b (.between c low high)) =
      d.column c ++ " BETWEEN " ++ (d.placeholders (bound + 1) v.expanded.length ++ " AND " ++
        d.placeholders (bound + v.expanded.length + 1) w.expanded.length) := by
  simp [Draft.predicate, Draft.written_append, Draft.written_param hlow,
    Draft.written_param hhigh, Draft.values_param hlow, String.append_assoc]

/-- No placeholder holds the word that stands between two bounds. -/
theorem bounds_inj {i j m n : Nat} {low high : String} :
    d.placeholders i m ++ " AND " ++ d.placeholders j n = low ++ " AND " ++ high ↔
      d.placeholders i m = low ∧ d.placeholders j n = high := by
  have hletter (i m : Nat) : 'A' ∉ (d.placeholders i m).toList := by
    intro hmem
    rcases Dialect.mem_placeholders hmem with hsign | hrest
    · cases d <;> simp [Dialect.sign] at hsign
    · simp at hrest
  constructor
  · intro h
    have hlists : ((d.placeholders i m).toList ++ [' ']) ++
          'A' :: ("ND ".toList ++ (d.placeholders j n).toList) =
        (low.toList ++ [' ']) ++ 'A' :: ("ND ".toList ++ high.toList) := by
      simpa using congrArg String.toList h
    obtain ⟨hlow, -, hhigh⟩ := (List.append_cons_inj_of_notMem (by simp [hletter])
      (by simp [hletter])).1 hlists
    exact ⟨String.toList_injective (List.append_cancel_right hlow),
      String.toList_injective (List.append_cancel_left hhigh)⟩
  · rintro ⟨rfl, rfl⟩
    rfl

/-- A predicate is written with one placeholder for every operand exactly when one is written for
every value. -/
theorem isWrittenAs_iff (h : q.Operands b vs) :
    q.IsWrittenAs d b (Draft.written d bound (Draft.predicate b q)) ↔ ∀ v ∈ vs, v.isSingle := by
  cases h with
  | compare hn =>
    simp only [IsWrittenAs, written_compare hn, String.append_right_inj,
      Dialect.exists_placeholders_eq]
    simp [FilterValue.isSingle]
  | ilike hn =>
    simp only [IsWrittenAs, written_ilike hn, String.append_right_inj, String.append_left_inj,
      Dialect.exists_placeholders_eq]
    simp [FilterValue.isSingle]
  | inList hn hne =>
    simp only [List.not_mem_nil, false_imp_iff, implies_true, iff_true, IsWrittenAs,
      Bool.false_eq_true, if_false]
    refine ⟨_, bound + 1, hn, hne, ?_⟩
    rw [written_inList hn]
    rfl
  | empty => simp [IsWrittenAs, Draft.predicate]
  | between hlow hhigh =>
    simp only [IsWrittenAs, written_between hlow hhigh, String.append_right_inj, bounds_inj,
      exists_and_left, exists_and_right, Dialect.exists_placeholders_eq]
    simp [FilterValue.isSingle]
  | null => simp [IsWrittenAs, Draft.predicate, Draft.written_append]

end Predicate

namespace FilterCondition

variable {f : FilterCondition} {index : Nat} {c : ColumnRef} {q : Predicate} {b : Bindings}
  {entries : List (String × FilterValue)}

theorem compile_operands (h : f.compile index c = some (q, entries))
    (hb : ∀ e ∈ entries, b.get? e.1 = some e.2) : q.Operands b f.operands := by
  simp only [compile] at h
  rw [operands]
  cases hop : f.operator <;> simp only [hop, bound] at h ⊢
  case between =>
    obtain ⟨⟨low, high⟩, hbounds, hp⟩ := Option.map_eq_some_iff.1 h
    obtain ⟨rfl, rfl⟩ := Prod.mk.inj hp
    rw [hbounds]
    exact .between (hb (_, low) (by simp)) (hb (_, high) (by simp))
  case isIn | notIn =>
    obtain ⟨rfl, rfl⟩ := Prod.mk.inj (Option.some.inj h)
    cases hmembers : f.value.members with
    | nil => exact .empty
    | cons v vs =>
      simp only [hmembers, List.isEmpty_cons, Bool.false_eq_true, if_false,
        List.forall_mem_singleton] at hb
      exact .inList hb (by simp)
  case isNull | isNotNull =>
    obtain ⟨rfl, rfl⟩ := Prod.mk.inj (Option.some.inj h)
    exact .null
  case ilike =>
    obtain ⟨rfl, rfl⟩ := Prod.mk.inj (Option.some.inj h)
    rw [List.forall_mem_singleton] at hb
    exact .ilike hb
  all_goals
    obtain ⟨rfl, rfl⟩ := Prod.mk.inj (Option.some.inj h)
    rw [List.forall_mem_singleton] at hb
    exact .compare hb

theorem operands_of_not_isKept (h : f.isKept = false) : f.operands = [] := by
  simp only [isKept, isValidBetween, Bool.or_eq_false_iff, bne_eq_false_iff_eq] at h
  obtain ⟨hop, hbounds⟩ := h
  have hnone : f.value.bounds? = none := by simpa using hbounds
  simp [operands, hop, bound, hnone]

end FilterCondition

namespace Predicate

def alternatives : Predicate → List Predicate
  | any group => group
  | q => [q]

theorem infix_of_mem_alternatives {b : Bindings} {q r : Predicate} (h : r ∈ q.alternatives) :
    Draft.predicate b r <:+: Draft.predicate b q := by
  cases q with
  | any group =>
    rw [Draft.predicate, Draft.predicates_eq]
    have hgroup : Draft.predicate b r <:+: Draft.separated " OR " (group.map (Draft.predicate b)) :=
      Draft.infix_separated (List.mem_map_of_mem h)
    exact hgroup.trans ((List.prefix_append _ _).isInfix.trans (List.suffix_cons _ _).isInfix)
  | compare | ilike | inList | between | null =>
    obtain rfl := List.mem_singleton.1 h
    exact List.infix_rfl

theorem Operands.alternatives_eq {b : Bindings} {q : Predicate} {vs : List FilterValue}
    (h : q.Operands b vs) : q.alternatives = [q] := by
  cases h <;> rfl

/-- Whether a draft has a predicate, and wherever it stands it is written with one placeholder for
every operand. -/
structure IsWrittenIn (d : Dialect) (b : Bindings) (draft : Draft) (q : Predicate) : Prop where
  stands : ∃ text before after, Draft.Writes d draft (Draft.predicate b q) text ∧
    (Draft.statement d draft).sql = before ++ text ++ after
  single : ∀ text, Draft.Writes d draft (Draft.predicate b q) text → q.IsWrittenAs d b text

theorem isWrittenIn_iff {d : Dialect} {b : Bindings} {draft : Draft} {q : Predicate}
    {vs : List FilterValue} (hin : Draft.predicate b q <:+: draft) (h : q.Operands b vs) :
    q.IsWrittenIn d b draft ↔ ∀ v ∈ vs, v.isSingle := by
  obtain ⟨before, after, hdraft⟩ := hin
  have hstands : Draft.Writes d draft (Draft.predicate b q) _ := ⟨before, after, hdraft, rfl⟩
  constructor
  · intro hw
    exact (isWrittenAs_iff h).1 (hw.single _ hstands)
  · intro hvs
    obtain ⟨first, last, hsql⟩ := hstands.sql_eq
    refine ⟨⟨_, first, last, hstands, hsql⟩, ?_⟩
    rintro text ⟨before, after, -, rfl⟩
    exact (isWrittenAs_iff h).2 hvs

end Predicate

theorem Conditions.searched_operands {o : QueryOptions} {t : AliasTable} {q : Predicate}
    (h : q ∈ (o.searched t).predicates.flatMap Predicate.alternatives) :
    ∃ c n v, q = .compare c .like n ∧ (n, v) ∈ (o.searched t).bindings ∧ v.isSingle := by
  rcases searched_cases o t with hnone | ⟨term, columns, hsome⟩
  · simp [hnone] at h
  · rw [hsome] at h ⊢
    rw [searching, List.flatMap_singleton, Predicate.alternatives] at h
    obtain ⟨⟨c, n⟩, hzip, rfl⟩ := List.mem_map.1 h
    obtain ⟨i, hi, rfl⟩ := List.mem_map.1 (List.of_mem_zip hzip).2
    rw [searching_bindings]
    exact ⟨c, _, _, rfl, List.mem_map_of_mem hi, rfl⟩

namespace Plan

variable {s : Schema} {root : Entity} {name : String} {o : QueryOptions} {p : Plan}
  {t : AliasTable} {q : Predicate} {f : FilterCondition}

def alternatives (p : Plan) : List Predicate := p.predicates.flatMap Predicate.alternatives

theorem infix_conjunction (h : q ∈ p.alternatives) :
    Draft.predicate p.bindings q <:+: Draft.conjunction p := by
  obtain ⟨q', hq', hq⟩ := List.mem_flatMap.1 h
  exact (Predicate.infix_of_mem_alternatives hq).trans
    (Draft.infix_separated (List.mem_map_of_mem hq'))

theorem infix_of_mem {d : Dialect} {draft : Draft} (hq : q ∈ p.alternatives)
    (h : draft ∈ [Draft.select p, Draft.count d p]) :
    Draft.predicate p.bindings q <:+: draft := by
  refine (infix_conjunction hq).trans ?_
  rcases List.mem_cons.1 h with rfl | h
  · exact Draft.infix_select p
  · obtain rfl := List.mem_singleton.1 h
    exact Draft.infix_count d p

theorem Compiled.compiled_operands (h : Compiled s root o p t)
    {c : Predicate × List (String × FilterValue)} {index : Nat}
    (hc : c ∈ Conditions.compiled t 0 o.filters)
    (hcompile : f.compile index (t.ref f.target) = some c) :
    c.1.Operands p.bindings f.operands := by
  refine FilterCondition.compile_operands hcompile fun e he ↦ Keyed.get?_of_mem h.keys_nodup ?_
  rw [h.bindings_eq]
  exact List.mem_append_left _ (List.mem_flatMap_of_mem hc he)

theorem Compiled.exists_alternative (h : Compiled s root o p t) (hf : f ∈ o.filters)
    (hkept : f.isKept) : ∃ q ∈ p.alternatives, q.Operands p.bindings f.operands := by
  obtain ⟨index, hindex, rfl⟩ := List.getElem_of_mem hf
  obtain ⟨c, hcompile⟩ := Option.isSome_iff_exists.1
    ((FilterCondition.compile_isSome _ index (t.ref (o.filters[index]).target)).trans hkept)
  have hc : c ∈ Conditions.compiled t 0 o.filters :=
    List.mem_filterMap.2 ⟨(o.filters[index], index), List.mk_mem_zipIdx_iff_getElem?.2
      (List.getElem?_eq_getElem hindex), hcompile⟩
  have hoperands := h.compiled_operands hc hcompile
  refine ⟨c.1, ?_, hoperands⟩
  rw [alternatives, h.predicates, List.append_assoc, List.flatMap_append]
  refine List.mem_append_left _ (List.mem_flatMap.2 ⟨c.1, List.mem_map_of_mem hc, ?_⟩)
  rw [hoperands.alternatives_eq]
  exact List.mem_singleton_self c.1

theorem Compiled.operands_of_mem (h : Compiled s root o p t) (hq : q ∈ p.alternatives) :
    (∃ f ∈ o.filters, q.Operands p.bindings f.operands) ∨
      ∃ vs, q.Operands p.bindings vs ∧ ∀ v ∈ vs, v.isSingle := by
  rw [alternatives, h.predicates, List.flatMap_append, List.flatMap_append, List.mem_append,
    List.mem_append] at hq
  rcases hq with (hq | hq) | hq
  · obtain ⟨q', hq', hq⟩ := List.mem_flatMap.1 hq
    obtain ⟨c, hc, rfl⟩ := List.mem_map.1 hq'
    obtain ⟨f, hf, index, hcompile⟩ := Conditions.mem_compiled hc
    have hoperands := h.compiled_operands hc hcompile
    rw [hoperands.alternatives_eq, List.mem_singleton] at hq
    exact .inl ⟨f, hf, hq ▸ hoperands⟩
  · obtain ⟨c, n, v, rfl, hv, hsingle⟩ := Conditions.searched_operands hq
    refine .inr ⟨[v], .compare (Keyed.get?_of_mem h.keys_nodup ?_), by simpa using hsingle⟩
    rw [h.bindings_eq]
    exact List.mem_append_right _ hv
  · obtain ⟨q', hq', hq⟩ := List.mem_flatMap.1 hq
    obtain ⟨column, -, rfl⟩ := mem_softDeletePredicates hq'
    obtain rfl := List.mem_singleton.1 hq
    exact .inr ⟨[], .null, by simp⟩

/-- Both statements exist and have every predicate. All of these are written with one placeholder
for every operand exactly when the filters bind single values; memberships always are written with
one placeholder for every member. -/
theorem isWrittenIn_iff_of_compile (h : compile s name o = .ok p) (d : Dialect) :
    p.selectStatement d = .ok (Draft.statement d (Draft.select p)) ∧
    p.countStatement d = .ok (Draft.statement d (Draft.count d p)) ∧
    ∀ draft ∈ [Draft.select p, Draft.count d p],
      ((∀ q ∈ p.alternatives, q.IsWrittenIn d p.bindings draft) ↔
        ∀ f ∈ o.filters, f.bindsSingles) ∧
      ∀ c negated n empty, .inList c negated n empty ∈ p.alternatives →
        (Predicate.inList c negated n empty).IsWrittenIn d p.bindings draft := by
  obtain ⟨root, t, -, hc⟩ := compile_ok h
  refine ⟨hc.isBound.selectStatement d, hc.isBound.countStatement d, fun draft hdraft ↦ ?_⟩
  have hin (q : Predicate) (hq : q ∈ p.alternatives) := infix_of_mem hq hdraft
  refine ⟨⟨fun hwritten f hf ↦ ?_, fun hsingles q hq ↦ ?_⟩, fun c negated n empty hq ↦ ?_⟩
  · rw [FilterCondition.bindsSingles, List.all_eq_true]
    cases hkept : f.isKept with
    | false => simp [FilterCondition.operands_of_not_isKept hkept]
    | true =>
      obtain ⟨q, hq, hoperands⟩ := hc.exists_alternative hf hkept
      exact (Predicate.isWrittenIn_iff (hin q hq) hoperands).1 (hwritten q hq)
  · rcases hc.operands_of_mem hq with ⟨f, hf, hoperands⟩ | ⟨vs, hoperands, hvs⟩
    · have hf := hsingles f hf
      rw [FilterCondition.bindsSingles, List.all_eq_true] at hf
      exact (Predicate.isWrittenIn_iff (hin q hq) hoperands).2 hf
    · exact (Predicate.isWrittenIn_iff (hin q hq) hoperands).2 hvs
  · have hoperands : ∃ vs, (Predicate.inList c negated n empty).Operands p.bindings vs := by
      rcases hc.operands_of_mem hq with ⟨f, -, hoperands⟩ | ⟨vs, hoperands, -⟩
      · exact ⟨_, hoperands⟩
      · exact ⟨vs, hoperands⟩
    obtain ⟨vs, hoperands⟩ := hoperands
    refine (Predicate.isWrittenIn_iff (hin _ hq) hoperands).2 ?_
    cases hoperands <;> simp

def singleAmounts : QueryOptions :=
  { filters := [⟨"amount", .equals, .list [.int 5], none⟩,
      ⟨"amount", .between, .list [.int 1, .list [.int 9]], none⟩,
      ⟨"amount", .notIn, .list [.int 3, .int 4], none⟩, ⟨"id", .like, .list [], none⟩] }

theorem isWrittenIn_iff_of_compile_singles :
    ∃ p, compile payments "Payment" singleAmounts = .ok p ∧
      (∀ q ∈ p.alternatives, q.IsWrittenIn .postgres p.bindings (Draft.select p)) ∧
      ∀ q ∈ p.alternatives, q.IsWrittenIn .postgres p.bindings (Draft.count .postgres p) := by
  have hname : (compile payments "Payment" singleAmounts).toOption.map (·.rootName) =
      some "payment" := by
    decide +kernel
  obtain ⟨p, hp, -⟩ := exists_ok_of_map hname
  obtain ⟨-, -, hwritten⟩ := isWrittenIn_iff_of_compile hp .postgres
  have hsingles : ∀ f ∈ singleAmounts.filters, f.bindsSingles := by decide
  exact ⟨p, hp, (hwritten _ (by simp)).1.2 hsingles, (hwritten _ (by simp)).1.2 hsingles⟩

def equalsTwo : FilterCondition := ⟨"amount", .equals, .list [.int 1, .int 2], none⟩

def severalAmounts : QueryOptions :=
  { filters := [equalsTwo, ⟨"amount", .gt, .list [], none⟩] }

/-- Options that pass the check, with comparisons to two values and to none. -/
theorem sql_of_severalAmounts : ∃ p, compile payments "Payment" severalAmounts = .ok p ∧
    (∃ count, p.countStatement .postgres = .ok count ∧
      count.sql = "SELECT COUNT(DISTINCT \"payment\".\"id\") AS \"total\" FROM \"payments\" " ++
        "AS \"payment\" WHERE \"payment\".\"amount\" = $1, $2 AND \"payment\".\"amount\" > ") ∧
    ∃ q ∈ p.alternatives, ¬q.IsWrittenIn .postgres p.bindings (Draft.select p) ∧
      ¬q.IsWrittenIn .postgres p.bindings (Draft.count .postgres p) := by
  have hsql : (compile payments "Payment" severalAmounts).toOption.map (fun p ↦
      (p.countStatement .postgres).toOption.map (·.sql)) =
      some (some ("SELECT COUNT(DISTINCT \"payment\".\"id\") AS \"total\" FROM \"payments\" " ++
        "AS \"payment\" WHERE \"payment\".\"amount\" = $1, $2 AND \"payment\".\"amount\" > ")) := by
    decide +kernel
  obtain ⟨p, hp, hcount⟩ := exists_ok_of_map hsql
  obtain ⟨root, t, -, hc⟩ := compile_ok hp
  obtain ⟨q, hq, hoperands⟩ := hc.exists_alternative (List.mem_cons_self : equalsTwo ∈ _) rfl
  have hseveral : ¬∀ v ∈ equalsTwo.operands, v.isSingle := by decide
  have hpage := (infix_conjunction hq).trans (Draft.infix_select p)
  have htotal := (infix_conjunction hq).trans (Draft.infix_count .postgres p)
  exact ⟨p, hp, exists_ok_of_map hcount, q, hq,
    mt (Predicate.isWrittenIn_iff hpage hoperands).1 hseveral,
    mt (Predicate.isWrittenIn_iff htotal hoperands).1 hseveral⟩

end Plan

end Listing
