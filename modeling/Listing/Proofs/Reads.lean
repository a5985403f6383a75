import Listing.Proofs.Precedence

namespace Listing

namespace Token

/-- The tokens behind each FROM that a table follows, and not a query in brackets. -/
def reads : List Token → List (List Token)
  | [] => []
  | t :: ts =>
    if t = .word "FROM" ∧ ts.head? ≠ some (.word "(") then ts :: reads ts else reads ts

def conjoined (conditions : List (List Token)) : List Token :=
  [Token.word "AND"].intercalate conditions

def ofPair (pair : ColumnRef × ColumnRef) : List Token :=
  ofColumn pair.1 ++ .word "=" :: ofColumn pair.2

def ofNull (c : ColumnRef) : List Token := ofColumn c ++ [.word "IS", .word "NULL"]

def ofJoined (table name : String) (conditions : List (List Token)) : List Token :=
  .word "LEFT" :: .word "JOIN" :: .name table :: .word "AS" :: .name name :: .word "ON" ::
    conjoined conditions

/-- A join is guarded where its target is joined, and not where the table of its pairs is. -/
def ofJoin (j : Join) : List Token :=
  j.link.toList.flatMap (fun l ↦ ofJoined l.table l.name [ofPair l.onParent]) ++
    ofJoined j.table j.name (j.on.map ofPair ++ j.softDelete.toList.map ofNull)

def ofTables (p : Plan) : List Token :=
  .name p.rootTable :: .word "AS" :: .name p.rootName :: p.joins.flatMap ofJoin

/-- Conditions that all have to hold, as a whole clause or in brackets beside another condition. -/
inductive IsWhere (conditions : List (List Token)) : List Token → Prop
  | whole {rest : List Token} : (∀ t ∈ rest.head?, t ∈ clauseWords) →
      IsWhere conditions (.word "WHERE" :: (conjoined conditions ++ rest))
  | beside {rest : List Token} :
      IsWhere conditions (.word "WHERE" :: .word "(" :: (conjoined conditions ++
        .word ")" :: .word "AND" :: rest))

/-- A predicate with some number of values before it, which does not run into its neighbours. -/
def IsCondition (d : Dialect) (b : Bindings) (q : Predicate) (ts : List Token) : Prop :=
  IsUnbroken ts ∧ ∃ bound, ts = Draft.tokensFrom d bound (Draft.predicate b q)

/-- The tables of a plan, and behind them its predicates. -/
def ReadsPlan (p : Plan) (d : Dialect) (ts : List Token) : Prop :=
  ∃ conditions behind, ts = ofTables p ++ behind ∧
    List.Forall₂ (IsCondition d p.bindings) p.predicates conditions ∧
      (p.predicates ≠ [] → IsWhere conditions behind)

variable {a ts : List Token} {p : Plan}

theorem reads_append (h : .word "FROM" ∉ a) (ts : List Token) : reads (a ++ ts) = reads ts := by
  induction a with
  | nil => rfl
  | cons t a ih =>
    obtain ⟨ht, ha⟩ := not_or.1 (mt List.mem_cons.2 h)
    rw [List.cons_append, reads, if_neg fun hfrom ↦ ht hfrom.1.symm, ih ha]

theorem reads_query (ts : List Token) :
    reads (.word "FROM" :: .word "(" :: ts) = reads ts := by
  rw [reads, if_neg (by simp)]
  exact reads_append (a := [.word "("]) (by decide) ts

end Token

namespace Draft

open Token

variable {d : Dialect} {p : Plan} {bound : Nat}

theorem tokensFrom_equal (pair : ColumnRef × ColumnRef) (bound : Nat) :
    tokensFrom d bound (equal pair) = ofPair pair := by
  have hword : Token.ofText " = " = [.word "="] := by decide
  simp [equal, ofPair, hword]

theorem tokensFrom_joined (table name : String) (on : Draft) : tokensFrom d bound
    (.word " LEFT JOIN " :: .name table :: .word " AS " :: .name name :: .word " ON " :: on) =
      .word "LEFT" :: .word "JOIN" :: .name table :: .word "AS" :: .name name :: .word "ON" ::
        tokensFrom d bound on := by
  have hjoin : Token.ofText " LEFT JOIN " = [.word "LEFT", .word "JOIN"] := by decide
  have hon : Token.ofText " ON " = [.word "ON"] := by decide
  simp [hjoin, hon]

theorem tokensFrom_join {j : Join} (h : j.on ≠ []) (bound : Nat) :
    tokensFrom d bound (join j) = ofJoin j := by
  have hpairs (bound : Nat) : tokensFrom d bound (separated " AND " (j.on.map equal)) =
      conjoined (j.on.map ofPair) := by
    rw [tokensFrom_separated_of_eq tokensFrom_equal, Token.ofText_and]
    rfl
  have hnull : Token.ofText " IS NULL" = [.word "IS", .word "NULL"] := by decide
  rw [join, tokensFrom_append, ofJoin]
  congr 1
  · cases j.link with
    | none => rfl
    | some l =>
      simp only [link, tokensFrom_joined, tokensFrom_equal]
      simp [ofJoined, conjoined]
  · rw [tokensFrom_joined, tokensFrom_append, hpairs, ofJoined]
    cases j.softDelete with
    | none => simp
    | some c =>
      have hne : j.on.map ofPair ≠ [] := by simpa using h
      rw [Option.toList_some, List.map_singleton, conjoined, conjoined,
        Reader.intercalate_concat _ hne]
      simp [ofNull, hnull]

theorem tokensFrom_joins {js : List Join} (h : ∀ j ∈ js, j.on ≠ []) (bound : Nat) :
    tokensFrom d bound (js.flatMap join) = js.flatMap ofJoin := by
  induction js generalizing bound with
  | nil => rfl
  | cons j js ih =>
    obtain ⟨hj, hjs⟩ := List.forall_mem_cons.1 h
    rw [List.flatMap_cons, List.flatMap_cons, tokensFrom_append, tokensFrom_join hj, ih hjs]

theorem exists_conditions (p : Plan) (bound : Nat) : ∃ conditions,
    List.Forall₂ (IsCondition d p.bindings) p.predicates conditions ∧
      tokensFrom d bound (conjunction p) = conjoined conditions := by
  refine ⟨_, ?_, tokensFrom_separated " AND " (predicate p.bindings) p.predicates⟩
  have hmembers := map_snd_numbered (predicate p.bindings) bound p.predicates
  nth_rewrite 1 [← hmembers]
  rw [List.forall₂_map_left_iff, List.forall₂_map_right_iff, List.forall₂_same]
  exact fun m _ ↦ ⟨isUnbroken_predicate p.bindings m.2 m.1, m.1, rfl⟩

/-- What reads tables once more than `ts`, those of the plan. -/
def ReadsBefore (p : Plan) (d : Dialect) (ts all : List Token) : Prop :=
  ∃ r, ReadsPlan p d r ∧ reads all = r :: reads ts

theorem from_not_mem {draft : Draft} {words : List String}
    (hwords : ∀ text ∈ words, .word "FROM" ∉ Token.ofText text) (h : IsOf words draft)
    (bound : Nat) : .word "FROM" ∉ tokensFrom d bound draft :=
  word_not_mem_tokensFrom rfl hwords h bound

theorem from_not_mem_conjunction (p : Plan) (bound : Nat) :
    .word "FROM" ∉ tokensFrom d bound (conjunction p) := by
  have hwords : ∀ text ∈ conditionWords, .word "FROM" ∉ Token.ofText text := by decide
  exact from_not_mem hwords (isOf_conjunction p) bound

theorem from_not_mem_columns (cs : List ColumnRef) (bound : Nat) :
    .word "FROM" ∉ tokensFrom d bound (columns cs) :=
  from_not_mem (by decide) (isOf_columns cs) bound

theorem from_not_mem_ordering (p : Plan) (grouped : Bool) (bound : Nat) :
    .word "FROM" ∉ tokensFrom d bound (ordering p grouped) := by
  have hwords : ∀ text ∈ orderWords, .word "FROM" ∉ Token.ofText text := by decide
  exact from_not_mem hwords (isOf_ordering p grouped).2 bound

theorem from_not_mem_window (p : Plan) (bound : Nat) :
    .word "FROM" ∉ tokensFrom d bound (window p) := by
  have hnumber (n : Nat) : Token.word "FROM" ≠ .word (toString n) := by
    intro heq
    have hmem : 'F' ∈ (toString n).toList := Token.word.inj heq ▸ by decide
    simpa using Text.isDigit_of_mem_toString hmem
  rw [tokensFrom_window]
  simp only [List.mem_cons, hnumber, List.not_mem_nil, or_false]
  decide

theorem from_not_mem_pageTail (p : Plan) (bound : Nat) :
    .word "FROM" ∉ tokensFrom d bound (pageTail p) := by
  rw [pageTail]
  split
  · simp [pageKeysClosing, from_not_mem_columns, from_not_mem_ordering, from_not_mem_window]
  · simp [from_not_mem_ordering, from_not_mem_window]

theorem startsClause_pageTail (p : Plan) : StartsClause d (pageTail p) := by
  rw [pageTail]
  split
  · exact startsClause_grouping _
  · exact (startsClause_ordering p false).append (startsClause_window p)

theorem reads_selection (p : Plan) (bound : Nat) (ts : List Token) :
    reads (tokensFrom d bound (.word "SELECT " :: selection p) ++ ts) = reads ts := by
  have hwords : ∀ text ∈ "SELECT " :: selectionWords, .word "FROM" ∉ Token.ofText text := by decide
  have hselection : IsOf ("SELECT " :: selectionWords) (.word "SELECT " :: selection p) :=
    ⟨by decide, (isOf_selection p).mono (by decide)⟩
  exact reads_append (from_not_mem hwords hselection bound) ts

theorem reads_countHead (p : Plan) (bound : Nat) (ts : List Token) :
    reads (tokensFrom d bound (countScope d p).before ++ ts) = reads ts := by
  have hwords : ∀ text ∈ "SELECT COUNT(DISTINCT " :: ") AS " :: keyWords,
      .word "FROM" ∉ Token.ofText text := by
    decide
  exact reads_append (from_not_mem hwords (isOf_countHead d p) bound) ts

theorem reads_pageKeysOpening (p : Plan) (bound : Nat) (ts : List Token) :
    reads (tokensFrom d bound (pageKeysOpening p) ++ ts) = reads ts := by
  have hrow : .word "FROM" ∉ tokensFrom d bound (keyRow p) := by
    rw [keyRow]
    split <;> simp [from_not_mem_columns]
  have hopening : pageKeysOpening p = keyRow p ++ .word " IN (SELECT " ::
      (columns (p.primaryKey.map fun c ↦ ⟨pageKeysName, c⟩) ++
        .word " FROM (SELECT " :: columns p.rootKeys) :=
    rfl
  have hin : .word "FROM" ∉ Token.ofText " IN (SELECT " := by decide
  rw [hopening, tokensFrom_append, tokensFrom_word, tokensFrom_append, tokensFrom_word,
    ofText_fromQuery]
  simp only [List.append_assoc, List.cons_append, List.nil_append]
  rw [reads_append hrow, reads_append hin, reads_append (from_not_mem_columns _ _), reads_query,
    ← List.singleton_append, reads_append (by decide), reads_append (from_not_mem_columns _ _)]

variable (hon : ∀ j ∈ p.joins, j.on ≠ [])

include hon

theorem tokensFrom_tables (bound : Nat) :
    tokensFrom d bound (tables p) = .word "FROM" :: ofTables p := by
  rw [tables, tokensFrom_word, tokensFrom_name, tokensFrom_word, tokensFrom_name,
    tokensFrom_joins hon, ofText_from, ofText_as]
  rfl

theorem from_not_mem_ofTables : .word "FROM" ∉ ofTables p := by
  have hwords : ∀ text ∈ joinWords, .word "FROM" ∉ Token.ofText text := by decide
  have hjoins := from_not_mem (d := .postgres) hwords (isOf_joins p.joins).2 0
  rw [tokensFrom_joins hon] at hjoins
  simpa [ofTables] using hjoins

theorem readsBefore_tables {conditions : List (List Token)} (behind ts : List Token)
    (hbehind : .word "FROM" ∉ behind)
    (hconditions : List.Forall₂ (IsCondition d p.bindings) p.predicates conditions)
    (hwhere : p.predicates ≠ [] → IsWhere conditions (behind ++ ts)) (bound : Nat) :
    ReadsBefore p d ts (tokensFrom d bound (tables p) ++ (behind ++ ts)) := by
  refine ⟨ofTables p ++ (behind ++ ts), ⟨conditions, behind ++ ts, rfl, hconditions, hwhere⟩, ?_⟩
  rw [tokensFrom_tables hon, List.cons_append, reads, if_pos ⟨rfl, by simp [ofTables]⟩,
    reads_append (from_not_mem_ofTables hon), reads_append hbehind]

theorem readsBefore_body {tail : Draft} (htail : StartsClause d tail) (bound : Nat) :
    ReadsBefore p d (tokensFrom d (bound + (values (conjunction p)).length) tail)
      (tokensFrom d bound (body p ++ tail)) := by
  obtain ⟨conditions, hconditions, htokens⟩ := exists_conditions (d := d) p bound
  have hfrom := from_not_mem_conjunction (d := d) p bound
  rw [body, restriction]
  by_cases hnone : p.predicates = []
  · have hvalues : values (conjunction p) = [] := by simp [conjunction, hnone, values_eq]
    have hbody := readsBefore_tables hon [] (tokensFrom d bound tail) List.not_mem_nil hconditions
      (absurd hnone) bound
    simpa [hnone, hvalues, values_tables] using hbody
  · have hclause := readsBefore_tables hon (.word "WHERE" :: conjoined conditions)
      (tokensFrom d (bound + (values (conjunction p)).length) tail)
      (by simpa [← htokens] using hfrom) hconditions (fun _ ↦ .whole (htail _)) bound
    simpa [hnone, htokens, values_tables] using hclause

theorem readsBefore_rows (rest : Draft) (bound : Nat) :
    ReadsBefore p d (tokensFrom d (bound + (values (conjunction p)).length) rest)
      (tokensFrom d bound (tables p ++
        (if p.predicates.isEmpty then [.word " WHERE "]
          else .word " WHERE (" :: (conjunction p ++ [.word ") AND "])) ++ rest)) := by
  obtain ⟨conditions, hconditions, htokens⟩ := exists_conditions (d := d) p bound
  have hfrom := from_not_mem_conjunction (d := d) p bound
  by_cases hnone : p.predicates = []
  · have hvalues : values (conjunction p) = [] := by simp [conjunction, hnone, values_eq]
    have hrows := readsBefore_tables hon [.word "WHERE"] (tokensFrom d bound rest)
      (by decide) hconditions (absurd hnone) bound
    simpa [hnone, hvalues, values_tables] using hrows
  · have hclause := readsBefore_tables hon
      (.word "WHERE" :: .word "(" :: (conjoined conditions ++ [.word ")", .word "AND"]))
      (tokensFrom d (bound + (values (conjunction p)).length) rest)
      (by simpa [← htokens] using hfrom) hconditions (fun _ ↦ by simpa using .beside) bound
    simpa [hnone, htokens, values_tables, values_append] using hclause

theorem reads_body (bound : Nat) :
    ∃ r, ReadsPlan p d r ∧ reads (tokensFrom d bound (body p ++ pageTail p)) = [r] := by
  obtain ⟨r, hr, hreads⟩ := readsBefore_body (d := d) hon (startsClause_pageTail p) bound
  have htail := reads_append (from_not_mem_pageTail (d := d) p
    (bound + (values (conjunction p)).length)) []
  rw [List.append_nil] at htail
  exact ⟨r, hr, hreads.trans (congrArg (r :: ·) htail)⟩

theorem reads_count : ∃ r, ReadsPlan p d r ∧ reads (tokensFrom d 0 (count d p)) = [r] := by
  obtain ⟨r, hr, hreads⟩ := readsBefore_body (d := d) hon startsClause_nil
    (0 + (values (countScope d p).before).length)
  rw [List.append_nil] at hreads
  rw [count_eq_body, tokensFrom_append, reads_countHead]
  exact ⟨r, hr, hreads⟩

theorem reads_select (hmany : p.hasToMany = false) :
    ∃ r, ReadsPlan p d r ∧ reads (tokensFrom d 0 (select p)) = [r] := by
  have hselect : select p = (.word "SELECT " :: selection p) ++ (body p ++ pageTail p) := by
    simp [select, pageTail, hmany]
  rw [hselect, tokensFrom_append, reads_selection]
  exact reads_body hon _

/-- Under a join to many the tables are read for the rows and once more for the keys. -/
theorem reads_select_toMany (hmany : p.hasToMany) :
    ∃ rows keys, ReadsPlan p d rows ∧ ReadsPlan p d keys ∧
      reads (tokensFrom d 0 (select p)) = [rows, keys] := by
  have hselect : select p = (.word "SELECT " :: selection p) ++ (tables p ++
      (if p.predicates.isEmpty then [.word " WHERE "]
        else .word " WHERE (" :: (conjunction p ++ [.word ") AND "])) ++
      (pageKeysOpening p ++ (body p ++ pageTail p))) := by
    simp [select, pageTail, hmany, pageKeys_eq]
  obtain ⟨rows, hrows, hreads⟩ := readsBefore_rows (d := d) hon
    (pageKeysOpening p ++ (body p ++ pageTail p))
    (0 + (values (.word "SELECT " :: selection p)).length)
  rw [tokensFrom_append (pageKeysOpening p), reads_pageKeysOpening] at hreads
  obtain ⟨keys, hkeys, hbody⟩ := reads_body (d := d) hon (0 +
    (values (.word "SELECT " :: selection p)).length + (values (conjunction p)).length +
      (values (pageKeysOpening p)).length)
  rw [hselect, tokensFrom_append, reads_selection, hreads, hbody]
  exact ⟨rows, keys, hrows, hkeys, rfl⟩

end Draft

end Listing
