import Listing.Proofs.Brackets
import Listing.Proofs.Readers

namespace Listing

inductive Operand
  | column (c : ColumnRef)
  | placeholder (text : String)
  | lower (o : Operand)
  deriving DecidableEq, Repr

inductive Test
  | truth (value : Bool)
  | compare (left : Operand) (operator : String) (right : Operand)
  | inList (left : Operand) (negated : Bool) (members : List Operand)
  | between (left low high : Operand)
  | null (left : Operand) (negated : Bool)
  /-- Whether a row is among those of another query. -/
  | within (row : List ColumnRef) (query : List Token)
  deriving DecidableEq, Repr

/-- What stands between the words AND and OR. -/
inductive Restriction
  | test (t : Test)
  | any (alternatives : List (List Restriction))
  deriving Repr

open Reader

namespace Operand

def isPlaceholder (w : String) : Bool := w.toList.head?.any (['$', '?'].contains ·)

def place : Reader Operand
  | .word w :: ts => if isPlaceholder w then some (.placeholder w, ts) else none
  | ts => (Reader.column ts).map fun (c, rest) ↦ (.column c, rest)

def read : Reader Operand := fun ts ↦
  match (skipWord "LOWER" ts).bind (skipWord "(") with
  | some inner => (before ")" place inner).map fun (o, rest) ↦ (.lower o, rest)
  | none => place ts

end Operand

namespace Test

def comparisons : List String := ["=", "!=", "LIKE", ">", ">=", "<", "<="]

def readNull (left : Operand) : Reader Test := fun ts ↦
  match skipWord "NOT" ts with
  | some rest => (skipWord "NULL" rest).map (.null left true, ·)
  | none => (skipWord "NULL" ts).map (.null left false, ·)

def readMembers (left : Operand) (negated : Bool) : Reader Test := fun ts ↦
  (skipWord "(" ts).bind fun inner ↦
    (before ")" (sepBy "," Operand.read inner.length) inner).map fun (members, rest) ↦
      (.inList left negated members, rest)

def readBounds (left : Operand) : Reader Test := fun ts ↦
  (before "AND" Operand.read ts).bind fun (low, rest) ↦
    (Operand.read rest).map fun (high, rest) ↦ (.between left low high, rest)

def readBehind (left : Operand) : Reader Test
  | .word w :: ts =>
    if w = "IS" then readNull left ts
    else if w = "IN" then readMembers left false ts
    else if w = "NOT" then (skipWord "IN" ts).bind (readMembers left true)
    else if w = "BETWEEN" then readBounds left ts
    else if comparisons.contains w then
      (Operand.read ts).map fun (right, rest) ↦ (.compare left w right, rest)
    else none
  | _ => none

def read : Reader Test := fun ts ↦
  match skipWord "TRUE" ts, skipWord "FALSE" ts with
  | some rest, _ => some (.truth true, rest)
  | none, some rest => some (.truth false, rest)
  | none, none => (Operand.read ts).bind fun (left, rest) ↦ readBehind left rest

def readRow : Reader (List ColumnRef) := fun ts ↦
  match skipWord "(" ts with
  | some inner => before ")" (sepBy "," Reader.column inner.length) inner
  | none =>
    match Reader.column ts with
    | some (c, rest) => some ([c], rest)
    | none => some ([], ts)

def readWithin : Reader Test := fun ts ↦
  (readRow ts).bind fun (row, rest) ↦
    ((skipWord "IN" rest).bind (skipWord "(")).bind fun inner ↦
      ((skipWord "SELECT" inner).bind fun _ ↦ Token.enclosed 0 inner).map fun (query, rest) ↦
        (.within row query, rest)

end Test

namespace Restriction

def disjunction (item : Reader Restriction) (n : Nat) : Reader (List (List Restriction)) :=
  sepBy "OR" (sepBy "AND" item n) n

def item : Nat → Reader Restriction
  | 0, _ => none
  | n + 1, ts =>
    (Test.read ts).map (fun (t, rest) ↦ (.test t, rest)) <|>
    ((skipWord "(" ts).bind (before ")" (disjunction (item n) n))).map
      (fun (alternatives, rest) ↦ (.any alternatives, rest)) <|>
    (Test.readWithin ts).map (fun (t, rest) ↦ (.test t, rest))

/-- A disjunction of conjunctions, as far as it goes. -/
def read : Reader (List (List Restriction)) := fun ts ↦
  disjunction (item (ts.length + 1)) (ts.length + 1) ts

end Restriction

namespace Predicate

def operand (d : Dialect) (bound : Nat) : Operand := .placeholder (d.placeholder (bound + 1))

mutual

/-- What a predicate asks for after `bound` values. -/
def restriction (d : Dialect) (b : Bindings) (bound : Nat) : Predicate → Restriction
  | .compare c comparison _ =>
    .test (.compare (.column c) comparison.sql (operand d bound))
  | .ilike c _ => .test (.compare (.lower (.column c)) "LIKE" (.lower (operand d bound)))
  | .inList c negated n empty =>
    if empty then .test (.truth negated)
    else .test (.inList (.column c) negated
      ((List.range' bound (Draft.values (Draft.param b n)).length).map (operand d)))
  | .between c _ _ => .test (.between (.column c) (operand d bound) (operand d (bound + 1)))
  | .null c negated => .test (.null (.column c) negated)
  | .any group => .any ((restrictions d b bound group).map fun r ↦ [r])

def restrictions (d : Dialect) (b : Bindings) (bound : Nat) : List Predicate → List Restriction
  | [] => []
  | q :: qs =>
    restriction d b bound q ::
      restrictions d b (bound + (Draft.values (Draft.predicate b q)).length) qs

end

/-- What a predicate needs to be read again: single values where one operand stands, members where a
list stands, and no empty groups. -/
inductive IsClear (b : Bindings) : Predicate → Prop
  | compare {c : ColumnRef} {comparison : Comparison} {n : String} {v : FilterValue} :
      b.get? n = some v → v.isList = false → IsClear b (.compare c comparison n)
  | ilike {c : ColumnRef} {n : String} {v : FilterValue} :
      b.get? n = some v → v.isList = false → IsClear b (.ilike c n)
  | empty {c : ColumnRef} {negated : Bool} {n : String} : IsClear b (.inList c negated n true)
  | inList {c : ColumnRef} {negated : Bool} {n : String} {items : List FilterValue} :
      b.get? n = some (.list items) → items ≠ [] → IsClear b (.inList c negated n false)
  | between {c : ColumnRef} {low high : String} {v w : FilterValue} :
      b.get? low = some v → v.isList = false → b.get? high = some w → w.isList = false →
      IsClear b (.between c low high)
  | null {c : ColumnRef} {negated : Bool} : IsClear b (.null c negated)
  | any {group : List Predicate} : group ≠ [] → (∀ q ∈ group, IsClear b q) → IsClear b (.any group)

theorem restrictions_eq (d : Dialect) (b : Bindings) (bound : Nat) (qs : List Predicate) :
    restrictions d b bound qs =
      (Draft.numbered (Draft.predicate b) bound qs).map fun m ↦ restriction d b m.1 m.2 := by
  induction qs generalizing bound with
  | nil => rfl
  | cons q qs ih => rw [restrictions, ih]; rfl

end Predicate

namespace Draft

variable {d : Dialect} {b : Bindings} {bound : Nat} {n : String} {v : FilterValue} {c : ColumnRef}

theorem param_scalar (h : b.get? n = some v) (hv : v.isList = false) : param b n = [.value v] := by
  rw [param, h]
  cases v <;> first | rfl | simp [FilterValue.isList] at hv

theorem tokensFrom_scalar (h : b.get? n = some v) (hv : v.isList = false) :
    tokensFrom d bound (param b n) = [.word (d.placeholder (bound + 1))] := by
  rw [param_scalar h hv]
  rfl

theorem values_scalar (h : b.get? n = some v) (hv : v.isList = false) :
    (values (param b n)).length = 1 := by
  rw [param_scalar h hv]
  rfl

theorem tokensFrom_compare (c : ColumnRef) (comparison : Comparison) (n : String) :
    tokensFrom d bound (predicate b (.compare c comparison n)) =
      Token.ofColumn c ++ .word comparison.sql :: tokensFrom d bound (param b n) := by
  have hword : Token.ofText comparison.sql = [.word comparison.sql] := by
    cases comparison <;> decide
  simp [predicate, hword]

theorem tokensFrom_ilike (c : ColumnRef) (n : String) :
    tokensFrom d bound (predicate b (.ilike c n)) =
      .word "LOWER" :: .word "(" :: (Token.ofColumn c ++ .word ")" :: .word "LIKE" ::
        .word "LOWER" :: .word "(" :: (tokensFrom d bound (param b n) ++ [.word ")"])) := by
  have hopening : Token.ofText "LOWER(" = [.word "LOWER", .word "("] := by decide
  have hbetween : Token.ofText ") LIKE LOWER(" =
      [.word ")", .word "LIKE", .word "LOWER", .word "("] := by
    decide
  simp [predicate, hopening, hbetween]

theorem tokensFrom_empty (c : ColumnRef) (negated : Bool) (n : String) :
    tokensFrom d bound (predicate b (.inList c negated n true)) =
      [.word (Predicate.truth negated)] := by
  have hword : Token.ofText (Predicate.truth negated) = [.word (Predicate.truth negated)] := by
    cases negated <;> decide
  simp [predicate, hword]

theorem tokensFrom_inList (c : ColumnRef) (negated : Bool) (n : String) :
    tokensFrom d bound (predicate b (.inList c negated n false)) =
      Token.ofColumn c ++ ((if negated then [.word "NOT"] else []) ++ .word "IN" :: .word "(" ::
        (tokensFrom d bound (param b n) ++ [.word ")"])) := by
  have hopening : Token.ofText (if negated then " NOT IN (" else " IN (") =
      (if negated then [.word "NOT"] else []) ++ [.word "IN", .word "("] := by
    cases negated <;> decide
  simp [predicate, hopening]

theorem tokensFrom_between (c : ColumnRef) (low high : String) :
    tokensFrom d bound (predicate b (.between c low high)) =
      Token.ofColumn c ++ .word "BETWEEN" :: (tokensFrom d bound (param b low) ++
        .word "AND" :: tokensFrom d (bound + (values (param b low)).length) (param b high)) := by
  have hbetween : Token.ofText " BETWEEN " = [.word "BETWEEN"] := by decide
  simp [predicate, hbetween]

theorem tokensFrom_null (c : ColumnRef) (negated : Bool) :
    tokensFrom d bound (predicate b (.null c negated)) =
      Token.ofColumn c ++ .word "IS" :: ((if negated then [.word "NOT"] else []) ++
        [.word "NULL"]) := by
  have hword : Token.ofText (if negated then " IS NOT NULL" else " IS NULL") =
      .word "IS" :: ((if negated then [.word "NOT"] else []) ++ [.word "NULL"]) := by
    cases negated <;> decide
  simp [predicate, hword]

theorem tokensFrom_any (group : List Predicate) :
    tokensFrom d bound (predicate b (.any group)) =
      .word "(" :: (tokensFrom d bound (separated " OR " (group.map (predicate b))) ++
        [.word ")"]) := by
  simp [predicate, predicates_eq]

end Draft

namespace Operand

variable {d : Dialect} {rest : List Token}

theorem isPlaceholder_placeholder (d : Dialect) (index : Nat) :
    isPlaceholder (d.placeholder index) := by
  rw [isPlaceholder, d.placeholder_toList]
  cases d <;> rfl

theorem placeholder_ne {w : String} (h : isPlaceholder w = false) (d : Dialect) (index : Nat) :
    d.placeholder index ≠ w := by
  rintro rfl
  rw [isPlaceholder_placeholder] at h
  exact absurd h (by decide)

theorem read_column (c : ColumnRef) (rest : List Token) :
    read (Token.ofColumn c ++ rest) = some (.column c, rest) := rfl

theorem place_placeholder (bound : Nat) (rest : List Token) :
    place (.word (d.placeholder (bound + 1)) :: rest) = some (Predicate.operand d bound, rest) :=
  if_pos (isPlaceholder_placeholder d _)

theorem read_placeholder (bound : Nat) (rest : List Token) :
    read (.word (d.placeholder (bound + 1)) :: rest) = some (Predicate.operand d bound, rest) := by
  have hlower : skipWord "LOWER" (.word (d.placeholder (bound + 1)) :: rest) = none :=
    if_neg (placeholder_ne (by decide) d _)
  rw [read, hlower]
  exact place_placeholder bound rest

theorem read_lower {o : Operand} {ts : List Token} (h : place ts = some (o, .word ")" :: rest)) :
    read (.word "LOWER" :: .word "(" :: ts) = some (.lower o, rest) := by
  simp [read, before_of_eq h]

end Operand

namespace Test

variable {d : Dialect} {b : Bindings} {bound : Nat} {c : ColumnRef} {comparison : Comparison}
  {n high : String} {v w : FilterValue} {rest : List Token}

theorem read_column (c : ColumnRef) (rest : List Token) :
    read (Token.ofColumn c ++ rest) = readBehind (.column c) rest := rfl

theorem read_compare (hv : b.get? n = some v) (hscalar : v.isList = false) :
    read (Draft.tokensFrom d bound (Draft.predicate b (.compare c comparison n)) ++ rest) =
      some (.compare (.column c) comparison.sql (Predicate.operand d bound), rest) := by
  have hright := Operand.read_placeholder (d := d) bound rest
  rw [Draft.tokensFrom_compare, Draft.tokensFrom_scalar hv hscalar, List.append_assoc, read_column]
  cases comparison <;> simp [readBehind, comparisons, Comparison.sql, hright]

theorem read_ilike (hv : b.get? n = some v) (hscalar : v.isList = false) :
    read (Draft.tokensFrom d bound (Draft.predicate b (.ilike c n)) ++ rest) =
      some (.compare (.lower (.column c)) "LIKE" (.lower (Predicate.operand d bound)), rest) := by
  have hleft (ts : List Token) : Operand.read (.word "LOWER" :: .word "(" ::
      (Token.ofColumn c ++ .word ")" :: ts)) = some (.lower (.column c), ts) :=
    Operand.read_lower rfl
  have hright := Operand.read_lower (Operand.place_placeholder (d := d) bound (.word ")" :: rest))
  rw [Draft.tokensFrom_ilike, Draft.tokensFrom_scalar hv hscalar]
  simp [read, skipWord, hleft, readBehind, comparisons, hright]

theorem read_empty (negated : Bool) :
    read (Draft.tokensFrom d bound (Draft.predicate b (.inList c negated n true)) ++ rest) =
      some (.truth negated, rest) := by
  rw [Draft.tokensFrom_empty]
  cases negated <;> simp [read, Predicate.truth, skipWord]

theorem read_between (hlow : b.get? n = some v) (hlowScalar : v.isList = false)
    (hhigh : b.get? high = some w) (hhighScalar : w.isList = false) :
    read (Draft.tokensFrom d bound (Draft.predicate b (.between c n high)) ++ rest) =
      some (.between (.column c) (Predicate.operand d bound) (Predicate.operand d (bound + 1)),
        rest) := by
  have hleft : before "AND" Operand.read (.word (d.placeholder (bound + 1)) :: .word "AND" ::
      .word (d.placeholder (bound + 1 + 1)) :: rest) = some (Predicate.operand d bound,
        .word (d.placeholder (bound + 1 + 1)) :: rest) :=
    before_of_eq (Operand.read_placeholder bound _)
  have hright := Operand.read_placeholder (d := d) (bound + 1) rest
  rw [Draft.tokensFrom_between, Draft.tokensFrom_scalar hlow hlowScalar,
    Draft.tokensFrom_scalar hhigh hhighScalar, Draft.values_scalar hlow hlowScalar,
    List.append_assoc, read_column]
  simp [readBehind, readBounds, hleft, hright]

theorem read_null (negated : Bool) :
    read (Draft.tokensFrom d bound (Draft.predicate b (.null c negated)) ++ rest) =
      some (.null (.column c) negated, rest) := by
  rw [Draft.tokensFrom_null, List.append_assoc, read_column]
  cases negated <;> simp [readBehind, readNull, skipWord]

theorem numbered_value (bound : Nat) (vs : List FilterValue) :
    (Draft.numbered (fun v ↦ [Piece.value v]) bound vs).map Prod.fst =
      List.range' bound vs.length := by
  induction vs generalizing bound with
  | nil => rfl
  | cons v vs ih => rw [Draft.numbered, List.map_cons, ih]; rfl

theorem readMembers_list {vs : List FilterValue} (hne : vs ≠ []) (left : Operand) (negated : Bool)
    (bound : Nat) (rest : List Token) :
    readMembers left negated (.word "(" :: (Draft.tokensFrom d bound
        (Draft.separated ", " (vs.map fun v ↦ [.value v])) ++ .word ")" :: rest)) =
      some (.inList left negated ((List.range' bound vs.length).map (Predicate.operand d)),
        rest) := by
  have hread (n : Nat) (hn : (Draft.tokensFrom d bound
      (Draft.separated ", " (vs.map fun v ↦ [.value v]))).length < n) :
      sepBy "," Operand.read n (Draft.tokensFrom d bound
        (Draft.separated ", " (vs.map fun v ↦ [.value v])) ++ .word ")" :: rest) =
      some ((Draft.numbered (fun v ↦ [Piece.value v]) bound vs).map
        (fun m ↦ Predicate.operand d m.1), .word ")" :: rest) :=
    Draft.sepBy_separated Token.ofText_comma (fun _ ↦ True)
      (fun m _ _ rest _ ↦ Operand.read_placeholder m.1 rest) (fun _ ↦ trivial) trivial rfl hne hn
  have hoperands : (Draft.numbered (fun v ↦ [Piece.value v]) bound vs).map
      (fun m ↦ Predicate.operand d m.1) =
      (List.range' bound vs.length).map (Predicate.operand d) := by
    rw [← numbered_value, List.map_map]
    rfl
  rw [hoperands] at hread
  rw [readMembers, skipWord_self, Option.bind_some, before_of_eq (hread _ (by simp))]
  rfl

theorem read_inList {items : List FilterValue} (hv : b.get? n = some (.list items))
    (hne : items ≠ []) (negated : Bool) :
    read (Draft.tokensFrom d bound (Draft.predicate b (.inList c negated n false)) ++ rest) =
      some (.inList (.column c) negated
        ((List.range' bound (Draft.values (Draft.param b n)).length).map (Predicate.operand d)),
        rest) := by
  have hparam : Draft.param b n = Draft.separated ", " (items.map fun v ↦ [.value v]) := by
    rw [Draft.param, hv]
  have hvalues : Draft.values (Draft.param b n) = items := Draft.values_param hv
  have hmembers := readMembers_list (d := d) hne (.column c) negated bound rest
  rw [Draft.tokensFrom_inList, hvalues, hparam, List.append_assoc, read_column]
  cases negated <;> simpa [readBehind, skipWord] using hmembers

end Test

namespace Restriction

variable {d : Dialect} {b : Bindings} {bound n : Nat} {ts rest : List Token} {q : Predicate}
  {qs : List Predicate}

theorem item_of_test {t : Test} (h : Test.read ts = some (t, rest)) :
    item (n + 1) ts = some (.test t, rest) := by
  simp [item, h]

theorem read_bracket (ts : List Token) : Test.read (.word "(" :: ts) = none := rfl

theorem item_of_brackets {alternatives : List (List Restriction)}
    (h : disjunction (item n) n ts = some (alternatives, .word ")" :: rest)) :
    item (n + 1) (.word "(" :: ts) = some (.any alternatives, rest) := by
  simp [item, read_bracket, before_of_eq h]

/-- The tokens of a predicate are read as what it asks for, whatever stands behind them. -/
theorem item_predicate (hq : q.IsClear b)
    (hn : (Draft.tokensFrom d bound (Draft.predicate b q)).length < n) (rest : List Token) :
    item n (Draft.tokensFrom d bound (Draft.predicate b q) ++ rest) =
      some (q.restriction d b bound, rest) := by
  obtain ⟨n, rfl⟩ : ∃ m, n = m + 1 := Nat.exists_eq_add_one.2 (Nat.zero_lt_of_lt hn)
  induction hq generalizing bound n rest with
  | compare hv hscalar => exact item_of_test (Test.read_compare hv hscalar)
  | ilike hv hscalar => exact item_of_test (Test.read_ilike hv hscalar)
  | empty => exact item_of_test (Test.read_empty _)
  | inList hv hne => exact item_of_test (Test.read_inList hv hne _)
  | between hlow hlowScalar hhigh hhighScalar =>
    exact item_of_test (Test.read_between hlow hlowScalar hhigh hhighScalar)
  | null => exact item_of_test (Test.read_null _)
  | @any group hne _ ih =>
    rw [Draft.tokensFrom_any, List.length_cons, List.length_append, List.length_singleton] at hn
    obtain ⟨n, rfl⟩ : ∃ m, n = m + 1 := Nat.exists_eq_add_one.2 (by omega)
    have hor : Token.ofText " OR " = [.word "OR"] := by decide
    have hmember : ∀ m ∈ Draft.numbered (Draft.predicate b) bound group,
        (Draft.tokensFrom d m.1 (Draft.predicate b m.2)).length < n + 1 →
        ∀ rest, skipWord "AND" rest = none →
          sepBy "AND" (item (n + 1)) (n + 1)
            (Draft.tokensFrom d m.1 (Draft.predicate b m.2) ++ rest) =
            some ([m.2.restriction d b m.1], rest) := by
      intro m hm hlength rest hskip
      exact sepBy_one (ih m.2 (Draft.mem_of_mem_numbered hm) rest n hlength) hskip
    rw [Draft.tokensFrom_any, List.cons_append, List.append_assoc, Predicate.restriction,
      Predicate.restrictions_eq, List.map_map]
    apply item_of_brackets
    exact Draft.sepBy_separated hor (fun rest ↦ skipWord "AND" rest = none) hmember (fun _ ↦ rfl)
      rfl rfl hne (by omega)

/-- Predicates with AND between them are read as one conjunction. -/
theorem disjunction_conjunction (hqs : ∀ q ∈ qs, q.IsClear b) (hne : qs ≠ [])
    (hand : skipWord "AND" rest = none) (hor : skipWord "OR" rest = none)
    (hn : (Draft.tokensFrom d bound
      (Draft.separated " AND " (qs.map (Draft.predicate b)))).length < n) :
    disjunction (item n) n
        (Draft.tokensFrom d bound (Draft.separated " AND " (qs.map (Draft.predicate b))) ++ rest) =
      some ([Predicate.restrictions d b bound qs], rest) := by
  obtain ⟨n, rfl⟩ : ∃ m, n = m + 1 := Nat.exists_eq_add_one.2 (Nat.zero_lt_of_lt hn)
  rw [Predicate.restrictions_eq]
  refine sepBy_one ?_ hor
  apply Draft.sepBy_separated Token.ofText_and (fun _ ↦ True) _ (fun _ ↦ trivial) trivial hand hne
    hn
  intro m hm hlength rest _
  exact item_predicate (hqs m.2 (Draft.mem_of_mem_numbered hm)) hlength rest

def rowTokens (row : List ColumnRef) : List Token :=
  if 1 < row.length then
    .word "(" :: ([Token.word ","].intercalate (row.map Token.ofColumn) ++ [.word ")"])
  else [Token.word ","].intercalate (row.map Token.ofColumn)

theorem item_row (c : ColumnRef) (ts : List Token) :
    item n (Token.ofColumn c ++ .word "," :: ts) = none := by
  cases n with
  | zero => rfl
  | succ n =>
    have htest : Test.read (Token.ofColumn c ++ .word "," :: ts) = none := by
      simp [Test.read_column, Test.readBehind, Test.comparisons]
    have hwithin : Test.readWithin (Token.ofColumn c ++ .word "," :: ts) = none := by
      simp [Test.readWithin, Test.readRow, skipWord, Token.ofColumn, Reader.column]
    have hbracket : skipWord "(" (Token.ofColumn c ++ .word "," :: ts) = none := rfl
    simp [item, htest, hwithin, hbracket]

theorem rowTokens_cons_cons (c c' : ColumnRef) (row : List ColumnRef) :
    rowTokens (c :: c' :: row) = .word "(" ::
      ([Token.word ","].intercalate ((c :: c' :: row).map Token.ofColumn) ++ [.word ")"]) :=
  if_pos (by simp)

theorem readRow_rowTokens (row : List ColumnRef) (rest : List Token) :
    Test.readRow (rowTokens row ++ .word "IN" :: rest) = some (row, .word "IN" :: rest) := by
  match row with
  | [] => rfl
  | [c] => rfl
  | c :: c' :: row =>
    rw [rowTokens_cons_cons, List.cons_append, List.append_assoc, Test.readRow, skipWord_self]
    exact before_of_eq (sepBy_columns (List.cons_ne_nil _ _) rfl (by simp))

theorem readWithin_rowTokens (row : List ColumnRef) {query : List Token}
    (h : Token.Balanced query) (hselect : query.head? = some (.word "SELECT"))
    (rest : List Token) :
    Test.readWithin (rowTokens row ++ .word "IN" :: .word "(" :: (query ++ .word ")" :: rest)) =
      some (.within row query, rest) := by
  have henclosed := h.enclosed_eq rest
  obtain ⟨query', rfl⟩ := List.head?_eq_some_iff.1 hselect
  rw [List.cons_append] at henclosed
  simp [Test.readWithin, readRow_rowTokens, henclosed]

theorem not_read_rowTokens (row : List ColumnRef) (rest : List Token) :
    Test.read (rowTokens row ++ .word "IN" :: .word "(" :: .word "SELECT" :: rest) = none ∧
      (skipWord "(" (rowTokens row ++ .word "IN" :: .word "(" :: .word "SELECT" :: rest)).bind
        (before ")" (disjunction (item n) n)) = none := by
  match row with
  | [] => exact ⟨rfl, rfl⟩
  | [c] =>
    have hselect (n : Nat) : sepBy "," Operand.read n (.word "SELECT" :: rest) = none :=
      sepBy_eq_none rfl n
    have hread : Test.read (Token.ofColumn c ++ .word "IN" :: .word "(" :: .word "SELECT" :: rest) =
        none := by
      rw [Test.read_column]
      simp [Test.readBehind, Test.readMembers, before, hselect]
    exact ⟨hread, rfl⟩
  | c :: c' :: row =>
    obtain ⟨ts, hts⟩ : ∃ ts, rowTokens (c :: c' :: row) ++
        .word "IN" :: .word "(" :: .word "SELECT" :: rest =
          .word "(" :: (Token.ofColumn c ++ .word "," :: ts) := by
      rw [rowTokens_cons_cons, List.map_cons, List.map_cons, List.intercalate_cons_cons]
      simp only [List.cons_append, List.append_assoc, List.nil_append]
      exact ⟨_, rfl⟩
    have hnone : disjunction (item n) n (Token.ofColumn c ++ .word "," :: ts) = none :=
      sepBy_eq_none (sepBy_eq_none (item_row c ts) n) n
    rw [hts]
    exact ⟨rfl, by simp [before, hnone]⟩

/-- A row is read with the query that it is looked for in. -/
theorem item_within (row : List ColumnRef) {query : List Token} (h : Token.Balanced query)
    (hselect : query.head? = some (.word "SELECT")) (rest : List Token) :
    item (n + 1) (rowTokens row ++ .word "IN" :: .word "(" :: (query ++ .word ")" :: rest)) =
      some (.test (.within row query), rest) := by
  have hwithin := readWithin_rowTokens row h hselect rest
  obtain ⟨query', rfl⟩ := List.head?_eq_some_iff.1 hselect
  obtain ⟨htest, hbrackets⟩ := not_read_rowTokens (n := n) row (query' ++ .word ")" :: rest)
  rw [List.cons_append] at hwithin ⊢
  simp [item, htest, hbrackets, hwithin]

end Restriction

end Listing
