import Listing.Proofs.Restrictions

namespace Listing

namespace Token

/-- Brackets are balanced and no OR stands outside of them. -/
structure IsUnbroken (ts : List Token) : Prop where
  balanced : Balanced ts
  whole : .word "OR" ∉ outside 0 ts

variable {a b ts : List Token}

theorem isUnbroken_nil : IsUnbroken [] := ⟨.nil, by simp [outside]⟩

theorem IsUnbroken.append (ha : IsUnbroken a) (hb : IsUnbroken b) : IsUnbroken (a ++ b) := by
  refine ⟨ha.balanced.append hb.balanced, ?_⟩
  rw [ha.balanced.outside_append, List.mem_append, not_or]
  exact ⟨ha.whole, hb.whole⟩

def nestingWords : List String := ["(", ")", "OR"]

theorem IsUnbroken.of_forall (h : ∀ w ∈ nestingWords, .word w ∉ ts) : IsUnbroken ts := by
  refine ⟨.of_forall ?_, fun hmem ↦ h "OR" (by decide) (mem_of_mem_outside hmem)⟩
  intro t ht
  have hne : t ≠ .word "(" ∧ t ≠ .word ")" :=
    ⟨fun heq ↦ h "(" (by decide) (heq ▸ ht), fun heq ↦ h ")" (by decide) (heq ▸ ht)⟩
  simpa [isBracket] using hne

theorem IsUnbroken.cons {t : Token} (ht : ∀ w ∈ nestingWords, t ≠ .word w) (h : IsUnbroken ts) :
    IsUnbroken (t :: ts) := by
  have hsingle : IsUnbroken [t] := by
    apply IsUnbroken.of_forall
    intro w hw hmem
    exact ht w hw (List.mem_singleton.1 hmem).symm
  exact hsingle.append h

theorem IsUnbroken.enclose (ha : Balanced a) (hb : IsUnbroken b) :
    IsUnbroken (.word "(" :: (a ++ .word ")" :: b)) := by
  have hgroup : IsUnbroken (.word "(" :: (a ++ [.word ")"])) := by
    refine ⟨ha.group, ?_⟩
    rw [ha.outside_group]
    exact List.not_mem_nil
  have hall := hgroup.append hb
  simpa using hall

end Token

namespace Draft

open Token

variable {d : Dialect} {b : Bindings} {bound : Nat} {draft : Draft} {words : List String}

theorem word_not_mem_tokensFrom {w : String} (hw : Operand.isPlaceholder w = false)
    (hwords : ∀ text ∈ words, .word w ∉ Token.ofText text) (h : IsOf words draft) (bound : Nat) :
    .word w ∉ tokensFrom d bound draft := by
  induction draft generalizing bound with
  | nil => exact List.not_mem_nil
  | cons piece ps ih =>
    cases piece with
    | word text =>
      rw [tokensFrom_word, List.mem_append, not_or]
      exact ⟨hwords text h.1, ih h.2 bound⟩
    | name n =>
      rw [tokensFrom_name, List.mem_cons, not_or]
      exact ⟨by simp, ih h.2 bound⟩
    | value v =>
      rw [tokensFrom, List.mem_cons, not_or]
      refine ⟨?_, ih h.2 _⟩
      intro heq
      exact Operand.placeholder_ne hw d _ (Token.word.inj heq).symm
    | unbound n => exact ih h.2 bound

def ArePlain (words : List String) : Prop :=
  ∀ w ∈ nestingWords, ∀ text ∈ words, .word w ∉ Token.ofText text

theorem IsOf.isUnbroken (h : IsOf words draft) (hwords : ArePlain words) (bound : Nat) :
    IsUnbroken (tokensFrom d bound draft) := by
  have hplaceholder : ∀ w ∈ nestingWords, Operand.isPlaceholder w = false := by decide
  apply IsUnbroken.of_forall
  intro w hw
  exact word_not_mem_tokensFrom (hplaceholder w hw) (hwords w hw) h bound

theorem arePlain_columnWords : ArePlain columnWords := by
  unfold ArePlain
  decide

theorem arePlain_tableWords : ArePlain tableWords := by
  unfold ArePlain
  decide

theorem isUnbroken_columns (cs : List ColumnRef) (bound : Nat) :
    IsUnbroken (tokensFrom d bound (columns cs)) :=
  (isOf_columns cs).isUnbroken arePlain_columnWords bound

theorem isUnbroken_column (c : ColumnRef) : IsUnbroken (Token.ofColumn c) :=
  (isOf_column c).isUnbroken (d := .postgres) arePlain_columnWords 0

theorem isUnbroken_param (b : Bindings) (n : String) (bound : Nat) :
    IsUnbroken (tokensFrom d bound (param b n)) :=
  (isOf_param b n).isUnbroken arePlain_columnWords bound

/-- What is written part by part keeps what holds of its parts and of what stands between them. -/
theorem tokensFrom_separated_closed {β : Type} {f : β → Draft} {l : List β} {separator : String}
    {P : List Token → Prop} (hnil : P []) (happend : ∀ x y, P x → P y → P (x ++ y))
    (hseparator : P (Token.ofText separator)) (h : ∀ x ∈ l, ∀ bound, P (tokensFrom d bound (f x)))
    (bound : Nat) : P (tokensFrom d bound (separated separator (l.map f))) := by
  induction l generalizing bound with
  | nil => exact hnil
  | cons x l ih =>
    obtain ⟨hx, hl⟩ := List.forall_mem_cons.1 h
    cases l with
    | nil => simpa using hx bound
    | cons y l =>
      rw [List.map_cons, List.map_cons, separated_cons_cons, tokensFrom_append, tokensFrom_word]
      exact happend _ _ (hx bound) (happend _ _ hseparator (ih hl _))

theorem isUnbroken_predicate (b : Bindings) (q : Predicate) (bound : Nat) :
    IsUnbroken (tokensFrom d bound (predicate b q)) := by
  induction q using Predicate.induction generalizing bound with
  | compare c comparison n =>
    rw [tokensFrom_compare]
    refine (isUnbroken_column c).append (.cons ?_ (isUnbroken_param b n bound))
    cases comparison <;> decide
  | ilike c n =>
    rw [tokensFrom_ilike]
    have hright : IsUnbroken (.word "(" :: (tokensFrom d bound (param b n) ++ [.word ")"])) :=
      .enclose (isUnbroken_param b n bound).balanced isUnbroken_nil
    exact .cons (by decide) (.enclose (isUnbroken_column c).balanced
      (.cons (by decide) (.cons (by decide) hright)))
  | inList c negated n empty =>
    cases empty with
    | true =>
      rw [tokensFrom_empty]
      exact .cons (by cases negated <;> decide) isUnbroken_nil
    | false =>
      rw [tokensFrom_inList]
      have hlist : IsUnbroken (.word "(" :: (tokensFrom d bound (param b n) ++ [.word ")"])) :=
        .enclose (isUnbroken_param b n bound).balanced isUnbroken_nil
      have hnot : IsUnbroken (if negated then [.word "NOT"] else []) := by
        cases negated with
        | false => exact isUnbroken_nil
        | true => exact .cons (by decide) isUnbroken_nil
      exact (isUnbroken_column c).append (hnot.append (.cons (by decide) hlist))
  | between c low high =>
    rw [tokensFrom_between]
    exact (isUnbroken_column c).append (.cons (by decide)
      ((isUnbroken_param b low _).append (.cons (by decide) (isUnbroken_param b high _))))
  | null c negated =>
    rw [tokensFrom_null]
    refine (isUnbroken_column c).append (.cons (by decide) ?_)
    cases negated with
    | false => exact .cons (by decide) isUnbroken_nil
    | true => exact .cons (by decide) (.cons (by decide) isUnbroken_nil)
  | any group ih =>
    rw [tokensFrom_any]
    -- an OR is not unbroken, but balanced, which is enough in the brackets of the group
    have hor : Balanced (Token.ofText " OR ") := .cons rfl .nil
    refine .enclose ?_ isUnbroken_nil
    exact tokensFrom_separated_closed .nil (fun _ _ ↦ .append) hor
      (fun q hq bound ↦ (ih q hq bound).balanced) bound

theorem isUnbroken_conjunction (p : Plan) (bound : Nat) :
    IsUnbroken (tokensFrom d bound (conjunction p)) := by
  have hand : IsUnbroken (Token.ofText " AND ") := .cons (by decide) isUnbroken_nil
  exact tokensFrom_separated_closed isUnbroken_nil (fun _ _ ↦ .append) hand
    (fun q _ ↦ isUnbroken_predicate p.bindings q) bound

theorem isUnbroken_ordered (grouped : Bool) (o : OrderBy) (bound : Nat) :
    IsUnbroken (tokensFrom d bound (ordered grouped o)) := by
  have horder : IsUnbroken (Token.ofText o.order.sql) := by
    cases o.order with
    | asc => exact .cons (by decide) isUnbroken_nil
    | desc => exact .cons (by decide) isUnbroken_nil
  have hcolumn := isUnbroken_column o.column
  cases grouped with
  | false => simpa [ordered] using hcolumn.append horder
  | true =>
    have haggregate (w : String) (hw : ∀ w' ∈ nestingWords, Token.word w ≠ .word w') :
        IsUnbroken (.word w :: .word "(" :: (Token.ofColumn o.column ++ .word ")" ::
          Token.ofText o.order.sql)) :=
      .cons hw (.enclose hcolumn.balanced horder)
    have hmin : Token.ofText "MIN(" = [.word "MIN", .word "("] := by decide
    have hmax : Token.ofText "MAX(" = [.word "MAX", .word "("] := by decide
    cases ho : o.order with
    | asc => simpa [ordered, ho, hmin] using haggregate "MIN" (by decide)
    | desc => simpa [ordered, ho, hmax] using haggregate "MAX" (by decide)

theorem isUnbroken_ordering (p : Plan) (grouped : Bool) (bound : Nat) :
    IsUnbroken (tokensFrom d bound (ordering p grouped)) := by
  have horder : IsUnbroken (Token.ofText " ORDER BY ") :=
    .cons (by decide) (.cons (by decide) isUnbroken_nil)
  have hcomma : IsUnbroken (Token.ofText ", ") := .cons (by decide) isUnbroken_nil
  rw [ordering]
  split
  · exact isUnbroken_nil
  · refine horder.append ?_
    exact tokensFrom_separated_closed isUnbroken_nil (fun _ _ ↦ .append) hcomma
      (fun o _ ↦ isUnbroken_ordered grouped o) bound

theorem tokensFrom_window (p : Plan) : tokensFrom d bound (window p) =
    [.word "LIMIT", .word (toString p.window.take), .word "OFFSET",
      .word (toString p.window.skip)] := by
  simp [window, ofText_window]

theorem isUnbroken_window (p : Plan) (bound : Nat) :
    IsUnbroken (tokensFrom d bound (window p)) := by
  have hnumber (n : Nat) : ∀ w ∈ nestingWords, Token.word (toString n) ≠ .word w := by
    have hdigit : ∀ w ∈ nestingWords, w.toList.any fun c ↦ !c.isDigit := by decide
    rintro w hw heq
    obtain rfl : toString n = w := Token.word.inj heq
    obtain ⟨c, hc, hdigit⟩ := List.any_eq_true.1 (hdigit _ hw)
    simp [Text.isDigit_of_mem_toString hc] at hdigit
  rw [tokensFrom_window]
  exact .cons (by decide) (.cons (hnumber _) (.cons (by decide) (.cons (hnumber _)
    isUnbroken_nil)))

def keyQuery (p : Plan) : Draft :=
  .word "SELECT " :: (columns (p.primaryKey.map fun c ↦ ⟨pageKeysName, c⟩) ++
    .word " FROM (SELECT " :: (columns p.rootKeys ++ body p ++ .word " GROUP BY " ::
      (columns p.rootKeys ++ ordering p true ++ window p ++
        [.word ") AS ", .name pageKeysName])))

theorem tokensFrom_columns (cs : List ColumnRef) (bound : Nat) :
    tokensFrom d bound (columns cs) = [Token.word ","].intercalate (cs.map Token.ofColumn) := by
  rw [columns, tokensFrom_separated_column, Token.ofText_comma]

/-- The keys of a record, in the form in which they are looked for among those of the page. -/
def keyRow (p : Plan) : Draft :=
  if 1 < p.primaryKey.length then .word "(" :: (columns p.rootKeys ++ [.word ")"])
  else columns p.rootKeys

theorem tokensFrom_keyRow (p : Plan) (bound : Nat) :
    tokensFrom d bound (keyRow p) = Restriction.rowTokens p.rootKeys := by
  have hlength : p.rootKeys.length = p.primaryKey.length := List.length_map _
  rw [keyRow, Restriction.rowTokens, hlength]
  split
  · simp [tokensFrom_columns]
  · exact tokensFrom_columns _ _

theorem values_keyRow (p : Plan) : values (keyRow p) = [] := by
  rw [keyRow]
  split
  · rw [values_word, values_append, values_columns]
    rfl
  · exact values_columns p.rootKeys

theorem tokensFrom_pageKeys (p : Plan) (bound : Nat) :
    tokensFrom d bound (pageKeys p) = Restriction.rowTokens p.rootKeys ++
      .word "IN" :: .word "(" :: (tokensFrom d bound (keyQuery p) ++ [.word ")"]) := by
  have hin : Token.ofText " IN (SELECT " = [.word "IN", .word "("] ++ Token.ofText "SELECT " := by
    decide
  have hkeys : pageKeys p = keyRow p ++ .word " IN (SELECT " ::
      (columns (p.primaryKey.map fun c ↦ ⟨pageKeysName, c⟩) ++ .word " FROM (SELECT " ::
        (columns p.rootKeys ++ body p ++ .word " GROUP BY " :: (columns p.rootKeys ++
          ordering p true ++ window p ++ [.word ") AS ", .name pageKeysName, .word ")"]))) :=
    rfl
  rw [hkeys, tokensFrom_append, tokensFrom_keyRow, values_keyRow, tokensFrom_word, hin]
  simp [keyQuery]

theorem keyQuery_eq (p : Plan) : keyQuery p =
    .word "SELECT " :: (columns (p.primaryKey.map fun c ↦ ⟨pageKeysName, c⟩) ++
      .word " FROM (SELECT " :: (columns p.rootKeys ++ tables p)) ++ whereWord p ++
      (conjunction p ++ .word " GROUP BY " :: (columns p.rootKeys ++ ordering p true ++ window p ++
        [.word ") AS ", .name pageKeysName])) := by
  simp [keyQuery, body_eq]

theorem isUnbroken_body (p : Plan) (bound : Nat) : IsUnbroken (tokensFrom d bound (body p)) := by
  have hwhere : IsUnbroken (Token.ofText " WHERE ") := .cons (by decide) isUnbroken_nil
  have htables := (isOf_tables p).isUnbroken (d := d) arePlain_tableWords bound
  rw [body, restriction]
  split
  · simpa using htables
  · rw [tokensFrom_append, tokensFrom_word]
    exact htables.append (hwhere.append (isUnbroken_conjunction p _))

theorem balanced_keyQuery (p : Plan) (bound : Nat) :
    Balanced (tokensFrom d bound (keyQuery p)) := by
  have hvalues : values (ordering p true) = [] := filterMap_ordering seesParams_value p true
  -- the values of the predicates are all that the query has, so the rest stands behind them
  let bound' := bound + (values (body p)).length
  have hkeys := isUnbroken_columns (d := d) p.rootKeys
  have hgrouped : IsUnbroken (.word "GROUP" :: .word "BY" ::
      (tokensFrom d bound' (columns p.rootKeys) ++
        (tokensFrom d bound' (ordering p true) ++ tokensFrom d bound' (window p)))) :=
    .cons (by decide) (.cons (by decide) ((hkeys bound').append
      ((isUnbroken_ordering p true bound').append (isUnbroken_window p bound'))))
  have hinner : IsUnbroken (.word "SELECT" :: (tokensFrom d bound (columns p.rootKeys) ++
      (tokensFrom d bound (body p) ++ .word "GROUP" :: .word "BY" ::
        (tokensFrom d bound' (columns p.rootKeys) ++
          (tokensFrom d bound' (ordering p true) ++ tokensFrom d bound' (window p)))))) :=
    .cons (by decide) ((hkeys bound).append ((isUnbroken_body p bound).append hgrouped))
  have hname : IsUnbroken [.word "AS", .name pageKeysName] :=
    .cons (by decide) (.cons (by simp) isUnbroken_nil)
  have houter := isUnbroken_columns (d := d) (p.primaryKey.map fun c ↦ ⟨pageKeysName, c⟩) bound
  have hall : IsUnbroken (.word "SELECT" ::
      (_ ++ .word "FROM" :: .word "(" :: (_ ++ .word ")" :: _))) :=
    .cons (by decide) (houter.append (.cons (by decide) (.enclose hinner.balanced hname)))
  simpa [keyQuery, values_columns, values_append, hvalues, bound'] using hall.balanced

theorem head?_keyQuery (p : Plan) (bound : Nat) :
    (tokensFrom d bound (keyQuery p)).head? = some (.word "SELECT") := by
  rw [keyQuery, tokensFrom_word, Token.ofText_select]
  rfl

theorem isUnbroken_pageKeys (p : Plan) (bound : Nat) :
    IsUnbroken (tokensFrom d bound (pageKeys p)) := by
  have hrow : IsUnbroken (Restriction.rowTokens p.rootKeys) := by
    have hcolumns := isUnbroken_columns (d := d) p.rootKeys bound
    rw [tokensFrom_columns] at hcolumns
    rw [Restriction.rowTokens]
    split
    · exact .enclose hcolumns.balanced isUnbroken_nil
    · exact hcolumns
  rw [tokensFrom_pageKeys]
  exact hrow.append (.cons (by decide) (.enclose (balanced_keyQuery p bound) isUnbroken_nil))

end Draft

end Listing
