import Listing.Proofs.Acceptance
import Listing.Proofs.Nesting

namespace Listing

namespace Token

def clauseWords : List Token := [.word "GROUP", .word "ORDER", .word "LIMIT"]

/-- Behind the first WHERE stands a condition up to the next clause. It is read as these
alternatives, and no OR stands outside its brackets. -/
def HasWhere (ts : List Token) (alternatives : List (List Restriction)) : Prop :=
  ∃ before clause rest, ts = before ++ .word "WHERE" :: (clause ++ rest) ∧
    .word "WHERE" ∉ before ∧ Restriction.read (clause ++ rest) = some (alternatives, rest) ∧
    .word "OR" ∉ outside 0 clause ∧ ∀ t ∈ rest.head?, t ∈ clauseWords

end Token

namespace Plan

open Reader Token

variable {p : Plan} {d : Dialect} {before rest : List Token}

def restrictions (p : Plan) (d : Dialect) (bound : Nat) : List Restriction :=
  Predicate.restrictions d p.bindings bound p.predicates

theorem skipWord_clause (h : ∀ t ∈ rest.head?, t ∈ clauseWords) :
    skipWord "AND" rest = none ∧ skipWord "OR" rest = none := by
  cases rest with
  | nil => exact ⟨rfl, rfl⟩
  | cons t rest =>
    have hwords : ∀ t ∈ clauseWords,
        skipWord "AND" (t :: rest) = none ∧ skipWord "OR" (t :: rest) = none := by
      simp [clauseWords, skipWord]
    exact hwords t (h t rfl)

variable (hne : p.predicates ≠ []) (hclear : ∀ q ∈ p.predicates, q.IsClear p.bindings)

include hne hclear

theorem hasWhere_conjunction (hbefore : .word "WHERE" ∉ before)
    (hrest : ∀ t ∈ rest.head?, t ∈ clauseWords) (bound : Nat) :
    HasWhere (before ++
      .word "WHERE" :: (Draft.tokensFrom d bound (Draft.conjunction p) ++ rest))
      [p.restrictions d bound] := by
  obtain ⟨hand, hor⟩ := skipWord_clause hrest
  refine ⟨before, _, rest, rfl, hbefore, ?_, (Draft.isUnbroken_conjunction p bound).whole, hrest⟩
  apply Restriction.disjunction_conjunction hclear hne hand hor
  exact Nat.lt_succ_of_le (List.length_append ▸ Nat.le_add_right _ _)

/-- In front of the keys of the page the conjunction is read as one condition in brackets. -/
theorem read_page (hrest : ∀ t ∈ rest.head?, t ∈ clauseWords) (bound bound' : Nat) :
    Restriction.read (.word "(" :: (Draft.tokensFrom d bound (Draft.conjunction p) ++
      .word ")" :: .word "AND" :: (Draft.tokensFrom d bound' (Draft.pageKeys p) ++ rest))) =
      some ([[.any [p.restrictions d bound],
        .test (.within p.rootKeys (Draft.tokensFrom d bound' (Draft.keyQuery p)))]], rest) := by
  obtain ⟨hand, hor⟩ := skipWord_clause hrest
  have hconjunction (n : Nat)
      (hn : (Draft.tokensFrom d bound (Draft.conjunction p)).length < n) (ts : List Token) :
      Restriction.item (n + 1) (.word "(" ::
        (Draft.tokensFrom d bound (Draft.conjunction p) ++ .word ")" :: ts)) =
        some (.any [p.restrictions d bound], ts) :=
    Restriction.item_of_brackets
      (Restriction.disjunction_conjunction hclear hne rfl rfl hn)
  have hkeys (n : Nat) :
      Restriction.item (n + 1) (Draft.tokensFrom d bound' (Draft.pageKeys p) ++ rest) =
        some (.test (.within p.rootKeys (Draft.tokensFrom d bound' (Draft.keyQuery p))), rest) := by
    have hitem := Restriction.item_within (n := n) p.rootKeys
      (Draft.balanced_keyQuery (d := d) p bound') (Draft.head?_keyQuery p bound') rest
    rw [Draft.tokensFrom_pageKeys]
    simpa using hitem
  -- a bracket stands in front of the conjunction, so it has fewer tokens than are there to be read
  obtain ⟨n, hlength, hn⟩ : ∃ n, (Token.word "(" ::
      (Draft.tokensFrom d bound (Draft.conjunction p) ++ .word ")" :: .word "AND" ::
        (Draft.tokensFrom d bound' (Draft.pageKeys p) ++ rest))).length = n + 1 ∧
      (Draft.tokensFrom d bound (Draft.conjunction p)).length < n + 1 := by
    simp only [List.length_cons, List.length_append]
    exact ⟨_, rfl, by omega⟩
  rw [Restriction.read, hlength]
  exact sepBy_one (sepBy_two (hconjunction (n + 1) hn _) (hkeys (n + 1)) hand) hor

theorem hasWhere_page (hbefore : .word "WHERE" ∉ before)
    (hrest : ∀ t ∈ rest.head?, t ∈ clauseWords) (bound bound' : Nat) :
    HasWhere (before ++ .word "WHERE" :: .word "(" ::
      (Draft.tokensFrom d bound (Draft.conjunction p) ++ .word ")" :: .word "AND" ::
        (Draft.tokensFrom d bound' (Draft.pageKeys p) ++ rest)))
      [[.any [p.restrictions d bound],
        .test (.within p.rootKeys (Draft.tokensFrom d bound' (Draft.keyQuery p)))]] := by
  let clause : List Token := .word "(" :: (Draft.tokensFrom d bound (Draft.conjunction p) ++
    .word ")" :: .word "AND" :: Draft.tokensFrom d bound' (Draft.pageKeys p))
  have hclause : IsUnbroken clause :=
    .enclose (Draft.isUnbroken_conjunction p bound).balanced
      (.cons (by decide) (Draft.isUnbroken_pageKeys p bound'))
  have htokens : clause ++ rest = .word "(" ::
      (Draft.tokensFrom d bound (Draft.conjunction p) ++ .word ")" :: .word "AND" ::
        (Draft.tokensFrom d bound' (Draft.pageKeys p) ++ rest)) := by
    simp [clause]
  refine ⟨before, clause, rest, ?_, hbefore, ?_, hclause.whole, hrest⟩
  · rw [htokens]
  · rw [htokens]
    exact read_page hne hclear hrest bound bound'

end Plan

namespace Draft

open Token

variable {p : Plan} {d : Dialect} {head tail : Draft}

def headWords : List String :=
  ["SELECT ", "SELECT COUNT(DISTINCT ", ") AS ", " FROM (SELECT "] ++ keyWords ++ tableWords

/-- What may stand before a WHERE: no value and no other WHERE. -/
structure IsHead (head : Draft) : Prop where
  isOf : IsOf headWords head
  values : values head = []

def StartsClause (d : Dialect) (tail : Draft) : Prop :=
  ∀ bound, ∀ t ∈ (tokensFrom d bound tail).head?, t ∈ clauseWords

theorem IsHead.where_not_mem (h : IsHead head) (d : Dialect) (bound : Nat) :
    .word "WHERE" ∉ tokensFrom d bound head := by
  have hwords : ∀ text ∈ headWords, .word "WHERE" ∉ Token.ofText text := by decide
  exact word_not_mem_tokensFrom (by decide) hwords h.isOf bound

theorem isHead_count (d : Dialect) (p : Plan) : IsHead ((countScope d p).before ++ tables p) where
  isOf := ((isOf_countHead d p).mono (by decide)).append ((isOf_tables p).mono (by decide)) trivial
  values := by
    have hkeys : values (countedKeys d p.rootKeys) = [] :=
      filterMap_countedKeys seesParams_value d p.rootKeys
    rw [countScope, values_append, values_tables, values_word, values_append, hkeys]
    rfl

theorem isHead_page (p : Plan) : IsHead (.word "SELECT " :: (selection p ++ tables p)) where
  isOf := ⟨by decide, ((isOf_selection p).mono (by decide)).append
    ((isOf_tables p).mono (by decide)) trivial⟩
  values := by
    rw [values_word, values_append, values_selection, values_tables]
    rfl

theorem isHead_keyQuery (p : Plan) : IsHead
    (.word "SELECT " :: (columns (p.primaryKey.map fun c ↦ ⟨pageKeysName, c⟩) ++
      .word " FROM (SELECT " :: (columns p.rootKeys ++ tables p))) where
  isOf := by
    have hcolumns (cs : List ColumnRef) : IsOf headWords (columns cs) :=
      (isOf_columns cs).mono (by decide)
    have htables : IsOf headWords (tables p) := (isOf_tables p).mono (by decide)
    exact ⟨by decide, (hcolumns _).append_word (by decide) ((hcolumns _).append htables trivial)⟩
  values := by
    rw [values_word, values_append, values_word, values_append, values_columns, values_columns,
      values_tables]
    rfl

theorem StartsClause.of_head {t : Token} (ht : t ∈ clauseWords)
    (h : ∀ bound, (tokensFrom d bound tail).head? = some t) : StartsClause d tail := by
  intro bound t' ht'
  rw [h, Option.mem_some_iff] at ht'
  exact ht' ▸ ht

theorem startsClause_nil : StartsClause d [] := by
  intro bound t ht
  simp at ht

theorem startsClause_ordering (p : Plan) (grouped : Bool) :
    StartsClause d (ordering p grouped) := by
  have horder : Token.ofText " ORDER BY " = [.word "ORDER", .word "BY"] := by decide
  rw [ordering]
  split
  · exact startsClause_nil
  · apply StartsClause.of_head (t := .word "ORDER") (by decide)
    intro bound
    rw [tokensFrom_word, horder]
    rfl

theorem StartsClause.append (h : StartsClause d head) (h' : StartsClause d tail) :
    StartsClause d (head ++ tail) := by
  intro bound t ht
  rw [tokensFrom_append, List.head?_append] at ht
  cases hhead : (tokensFrom d bound head).head? with
  | none =>
    rw [hhead] at ht
    exact h' _ t ht
  | some t' =>
    rw [hhead] at ht
    exact h bound t (hhead ▸ ht)

theorem startsClause_window (p : Plan) : StartsClause d (window p) := by
  apply StartsClause.of_head (t := .word "LIMIT") (by decide)
  intro bound
  rw [tokensFrom_window]
  rfl

theorem startsClause_grouping (rest : Draft) : StartsClause d (.word " GROUP BY " :: rest) := by
  apply StartsClause.of_head (t := .word "GROUP") (by decide)
  intro bound
  rw [tokensFrom_word, Token.ofText_grouping]
  rfl

variable (hne : p.predicates ≠ []) (hclear : ∀ q ∈ p.predicates, q.IsClear p.bindings)

include hne hclear

theorem hasWhere_tokensFrom (hhead : IsHead head) (htail : StartsClause d tail) (bound : Nat) :
    HasWhere (tokensFrom d bound (head ++ whereWord p ++ (conjunction p ++ tail)))
      [p.restrictions d bound] := by
  have hwhere : whereWord p = [.word " WHERE "] := by simp [whereWord, hne]
  have hall := Plan.hasWhere_conjunction (d := d) hne hclear (hhead.where_not_mem d bound)
    (htail (bound + (values (conjunction p)).length)) bound
  rw [hwhere]
  simpa [hhead.values] using hall

theorem hasWhere_count (d : Dialect) :
    HasWhere (tokensFrom d 0 (count d p)) [p.restrictions d 0] := by
  have hcount : count d p =
      ((countScope d p).before ++ tables p) ++ whereWord p ++ (conjunction p ++ []) := by
    simp [count_eq_body, body_eq]
  rw [hcount]
  exact hasWhere_tokensFrom hne hclear (isHead_count d p) startsClause_nil 0

theorem hasWhere_select (hmany : p.hasToMany = false) (d : Dialect) :
    HasWhere (tokensFrom d 0 (select p)) [p.restrictions d 0] := by
  have hselect : select p = (.word "SELECT " :: (selection p ++ tables p)) ++ whereWord p ++
      (conjunction p ++ (ordering p false ++ window p)) := by
    simp [select, hmany, body_eq]
  rw [hselect]
  exact hasWhere_tokensFrom hne hclear (isHead_page p)
    ((startsClause_ordering p false).append (startsClause_window p)) 0

theorem hasWhere_keyQuery (d : Dialect) (bound : Nat) :
    HasWhere (tokensFrom d bound (keyQuery p)) [p.restrictions d bound] := by
  rw [keyQuery_eq]
  exact hasWhere_tokensFrom hne hclear (isHead_keyQuery p) (startsClause_grouping _) bound

theorem hasWhere_select_toMany (hmany : p.hasToMany) (d : Dialect) :
    HasWhere (tokensFrom d 0 (select p)) [[.any [p.restrictions d 0],
      .test (.within p.rootKeys
        (tokensFrom d (values (conjunction p)).length (keyQuery p)))]] := by
  have hselect : select p = (.word "SELECT " :: (selection p ++ tables p)) ++ .word " WHERE (" ::
      (conjunction p ++ .word ") AND " :: (pageKeys p ++ ordering p false)) := by
    simp [select, hmany, hne]
  let bound := (values (conjunction p)).length
  have htail := startsClause_ordering (d := d) p false (bound + (values (pageKeys p)).length)
  have hall := Plan.hasWhere_page hne hclear (d := d) ((isHead_page p).where_not_mem d 0)
    htail 0 bound
  rw [hselect, tokensFrom_append, (isHead_page p).values]
  simpa [bound] using hall

end Draft

namespace Plan

open Token

variable {p : Plan}

/-- The values of the parameters, in their order. -/
def boundValues (p : Plan) : List FilterValue :=
  p.params.flatMap fun n ↦ (p.bindings.get? n).elim [] FilterValue.expanded

/-- What stands behind WHERE in both statements of a plan, and what is bound there. -/
structure MeansConjunction (p : Plan) (d : Dialect) (page count : Statement) : Prop where
  params_count : count.params = p.boundValues
  params_page : page.params =
    if p.hasToMany then p.boundValues ++ p.boundValues else p.boundValues
  count : ∃ ts, Token.ofStatement? d count = some ts ∧ HasWhere ts [p.restrictions d 0]
  page : ∃ ts, Token.ofStatement? d page = some ts ∧
    if p.hasToMany then
      ∃ query, HasWhere ts [[.any [p.restrictions d 0], .test (.within p.rootKeys query)]] ∧
        HasWhere query [p.restrictions d p.boundValues.length]
    else HasWhere ts [p.restrictions d 0]

theorem isBound_of_isClear (hclear : ∀ q ∈ p.predicates, q.IsClear p.bindings) : p.IsBound := by
  have hparams : ∀ q : Predicate, q.IsClear p.bindings → ∀ n ∈ q.params, n ∈ p.bindings.keys := by
    intro q hq
    have hbound {n : String} {v : FilterValue} (h : p.bindings.get? n = some v) :
        n ∈ p.bindings.keys :=
      Keyed.get?_isSome.1 (Option.isSome_of_eq_some h)
    induction hq with
    | compare hv _ => simpa [Predicate.params] using hbound hv
    | ilike hv _ => simpa [Predicate.params] using hbound hv
    | empty => simp [Predicate.params]
    | inList hv _ => simpa [Predicate.params] using hbound hv
    | between hlow _ hhigh _ => simpa [Predicate.params] using ⟨hbound hlow, hbound hhigh⟩
    | null => simp [Predicate.params]
    | any _ _ ih =>
      rw [Predicate.params, Predicate.groupParams_eq, List.forall_mem_flatMap]
      exact ih
  exact List.forall_mem_flatMap.2 fun q hq ↦ hparams q (hclear q hq)

theorem values_conjunction (p : Plan) :
    Draft.values (Draft.conjunction p) = p.boundValues := by
  have hparam (n : String) : Draft.values (Draft.param p.bindings n) =
      (p.bindings.get? n).elim [] FilterValue.expanded := by
    cases h : p.bindings.get? n with
    | none =>
      rw [Draft.param, h]
      rfl
    | some v => exact Draft.values_param h
  rw [Draft.values_eq, Draft.filterMap_conjunction Draft.seesParams_value, boundValues]
  exact List.flatMap_congr fun n _ ↦ hparam n

/-- Both statements ask for all predicates at once, whatever these are called and however their
groups are nested. -/
theorem meansConjunction_statements (hne : p.predicates ≠ [])
    (hclear : ∀ q ∈ p.predicates, q.IsClear p.bindings) (d : Dialect) :
    ∃ page count, p.selectStatement d = .ok page ∧ p.countStatement d = .ok count ∧
      p.MeansConjunction d page count := by
  have hbound := isBound_of_isClear hclear
  have hvalues := values_conjunction p
  refine ⟨_, _, hbound.selectStatement d, hbound.countStatement d, ?_, ?_, ?_, ?_⟩
  · exact (Draft.filterMap_count Draft.seesParams_value d p).trans hvalues
  · have hpage : (Draft.statement d (Draft.select p)).params = _ :=
      Draft.filterMap_select Draft.seesParams_value p
    rw [hpage, ← Draft.values_eq, hvalues]
    split
    · rfl
    · exact List.append_nil _
  · exact ⟨_, Draft.ofStatement?_statement (Draft.isSpaced_count d p) (Draft.isApart_count d p),
      Draft.hasWhere_count hne hclear d⟩
  · refine ⟨_, Draft.ofStatement?_statement (Draft.isSpaced_select p) (Draft.isApart_select p), ?_⟩
    rw [← hvalues]
    cases hmany : p.hasToMany with
    | true =>
      rw [if_pos rfl]
      exact ⟨_, Draft.hasWhere_select_toMany hne hclear hmany d,
        Draft.hasWhere_keyQuery hne hclear d _⟩
    | false => exact Draft.hasWhere_select hne hclear hmany d

def confusable : Plan :=
  { rootEntity := "Quote", rootTable := "q WHERE (1", rootName := "a) OR (b"
    primaryKey := ["x", "y"]
    joins := [{
      path := "lines", name := "lines AND", parentName := "a) OR (b", table := "lines"
      kind := .oneToMany, many := true, mode := .projected
      on := [(⟨"lines AND", "x"⟩, ⟨"a) OR (b", "x"⟩)]
      softDelete := some ⟨"lines AND", "gone\""⟩, link := none, columns := [], primaryKey := [] }]
    select := [⟨⟨"a) OR (b", "x"⟩, "x"⟩]
    predicates := [.between ⟨"a) OR (b", "low AND high"⟩ "from" "to",
      .any [.inList ⟨"a) OR (b", "x"⟩ true "members" false,
        .any [.ilike ⟨"lines AND", "text"⟩ "term", .null ⟨"a) OR (b", "y"⟩ true]]]
    bindings := [("from", .int 1), ("to", .int 2), ("members", .list [.int 3, .int 4]),
      ("term", .text "%) OR (%")]
    order := [], window := ⟨0, 10⟩ }

theorem meansConjunction_statements_confusable :
    (∃ page count, confusable.selectStatement .postgres = .ok page ∧
      confusable.countStatement .postgres = .ok count ∧
      confusable.MeansConjunction .postgres page count) ∧
    confusable.hasToMany ∧ confusable.restrictions .postgres 5 = [
      .test (.between (.column ⟨"a) OR (b", "low AND high"⟩) (.placeholder "$6")
        (.placeholder "$7")),
      .any [[.test (.inList (.column ⟨"a) OR (b", "x"⟩) true
          [.placeholder "$8", .placeholder "$9"])],
        [.any [[.test (.compare (.lower (.column ⟨"lines AND", "text"⟩)) "LIKE"
            (.lower (.placeholder "$10")))],
          [.test (.null (.column ⟨"a) OR (b", "y"⟩) true)]]]]] := by
  have hne : confusable.predicates ≠ [] := List.cons_ne_nil _ _
  have hmembers : confusable.bindings.get? "members" = some (.list [.int 3, .int 4]) := rfl
  have hinterval : Predicate.IsClear confusable.bindings
      (.between ⟨"a) OR (b", "low AND high"⟩ "from" "to") :=
    .between (v := .int 1) (w := .int 2) rfl rfl rfl rfl
  have hlist : Predicate.IsClear confusable.bindings
      (.inList ⟨"a) OR (b", "x"⟩ true "members" false) :=
    .inList hmembers (List.cons_ne_nil _ _)
  have hinner : Predicate.IsClear confusable.bindings
      (.any [.ilike ⟨"lines AND", "text"⟩ "term", .null ⟨"a) OR (b", "y"⟩ true]) := by
    refine .any (List.cons_ne_nil _ _) (List.forall_mem_cons.2 ⟨?_, ?_⟩)
    · exact .ilike (v := .text "%) OR (%") rfl rfl
    · exact List.forall_mem_singleton.2 .null
  have hclear : ∀ q ∈ confusable.predicates, q.IsClear confusable.bindings :=
    List.forall_mem_cons.2 ⟨hinterval, List.forall_mem_singleton.2
      (.any (List.cons_ne_nil _ _) (List.forall_mem_cons.2
        ⟨hlist, List.forall_mem_singleton.2 hinner⟩))⟩
  exact ⟨meansConjunction_statements hne hclear .postgres, rfl, rfl⟩

end Plan

end Listing
