import Listing.Proofs.Isolation
import Listing.Proofs.Occurrences
import Listing.Proofs.Written

namespace Listing

/-- A piece as it is read when placeholders have no numbers. -/
def Piece.lexemes (d : Dialect) : Piece → List Lexeme
  | .word text => text.toList.map .char
  | .name n => [.name n]
  | .value _ => [.char d.sign]
  | .unbound _ => []

namespace Draft

variable {d : Dialect} {draft : Draft} {bound : Nat} {rest : List Lexeme}

def lexemes (d : Dialect) (draft : Draft) : List Lexeme := draft.flatMap (Piece.lexemes d)

theorem lexemesFrom_append (a b : Draft) (bound : Nat) : lexemesFrom d bound (a ++ b) =
    lexemesFrom d bound a ++ lexemesFrom d (bound + (values a).length) b := by
  induction a generalizing bound with
  | nil => rfl
  | cons piece a ih =>
    cases piece with
    | value v =>
      have hlength : (values (.value v :: a)).length = 1 + (values a).length := Nat.add_comm _ 1
      rw [List.cons_append, lexemesFrom, lexemesFrom, ih, hlength, List.append_assoc, Nat.add_assoc]
    | word | name =>
      rw [List.cons_append, lexemesFrom, lexemesFrom, ih]
      simp [values]
    | unbound n => exact ih bound

/-- Behind a sign only digits are passed over, and no word begins with one. -/
theorem unnumberedFrom_lexemesFrom (h : IsSpaced draft) (bound : Nat) (behindSign : Bool) :
    Lexeme.unnumberedFrom d.sign behindSign (lexemesFrom d bound draft) = lexemes d draft := by
  induction draft generalizing bound behindSign with
  | nil => rfl
  | cons piece ps ih =>
    rw [lexemes, List.flatMap_cons, ← lexemes]
    cases piece with
    | word text =>
      obtain ⟨c, cs, htext, hdigit, hsigns⟩ := isWord_iff.1 h.1
      have hsign : d.sign ∉ c :: cs := fun hmem ↦ hsigns _ hmem (sign_mem_signs d)
      simp only [List.mem_cons, not_or] at hsign
      have hc : (c == d.sign) = false := by simpa using Ne.symm hsign.1
      rw [lexemesFrom, Piece.lexemes, htext, List.map_cons, List.cons_append, List.cons_append,
        Lexeme.unnumberedFrom, hdigit, Bool.and_false, if_neg Bool.false_ne_true, hc,
        Lexeme.unnumberedFrom_chars hsign.2, ih h.2]
    | name n =>
      rw [lexemesFrom, Lexeme.unnumberedFrom, ih h.2]
      rfl
    | value v =>
      have hdigits : ∀ c ∈ d.digits (bound + 1), c.isDigit := fun _ ↦ Dialect.isDigit_of_mem_digits
      rw [lexemesFrom, d.placeholder_toList, List.map_cons, List.cons_append,
        Lexeme.unnumberedFrom, d.isDigit_sign, Bool.and_false, if_neg Bool.false_ne_true,
        beq_self_eq_true, Lexeme.unnumberedFrom_digits hdigits, ih h.2]
      rfl
    | unbound n => exact ih h.2 bound behindSign

theorem occurrences_lexemesFrom {words : List String} {x y : Char}
    (hquiet : ∀ text ∈ words, Lexeme.isQuiet x y text.toList) (hx : x.isDigit = false)
    (hsign : x ≠ d.sign) (h : IsOf words draft) :
    Lexeme.occurrences [x, y] (lexemesFrom d bound draft ++ rest) =
      Lexeme.occurrences [x, y] rest := by
  induction draft generalizing bound with
  | nil => rfl
  | cons piece ps ih =>
    cases piece with
    | word text =>
      rw [lexemesFrom, List.append_assoc, Lexeme.occurrences_quiet (hquiet text h.1), ih h.2]
    | name n => rw [lexemesFrom, List.cons_append, Lexeme.occurrences_name, ih h.2]
    | value v =>
      have hplaceholder : x ∉ (d.placeholder (bound + 1)).toList := by
        intro hmem
        rcases Dialect.mem_placeholder hmem with heq | hdigit
        · exact hsign heq
        · simp [hx] at hdigit
      rw [lexemesFrom, List.append_assoc,
        Lexeme.occurrences_quiet (Lexeme.isQuiet_of_not_mem hplaceholder), ih h.2]
    | unbound n => exact ih h.2

/-- Characters that stand together in the window, and in no word of the vocabulary. -/
def windowPairs : List (Char × Char) := [('I', 'M'), ('F', 'F')]

theorem occurrences_usual {x y : Char} (hxy : (x, y) ∈ windowPairs) (h : IsUsual draft) :
    Lexeme.occurrences [x, y] (lexemesFrom d bound draft ++ rest) =
      Lexeme.occurrences [x, y] rest := by
  have hquiet : ∀ pair ∈ windowPairs, ∀ text ∈ vocabulary,
      Lexeme.isQuiet pair.1 pair.2 text.toList := by
    decide
  have hletter : ∀ pair ∈ windowPairs, pair.1.isDigit = false ∧ pair.1 ∉ signs := by decide
  obtain ⟨hdigit, hsigns⟩ := hletter (x, y) hxy
  apply occurrences_lexemesFrom (hquiet (x, y) hxy) hdigit _ h
  rintro rfl
  exact hsigns (sign_mem_signs d)

theorem isQuiet_toString {x y : Char} (hx : x.isDigit = false) (n : Nat) :
    Lexeme.isQuiet x y (toString n).toList := by
  apply Lexeme.isQuiet_of_not_mem
  intro hmem
  simp [Text.isDigit_of_mem_toString hmem] at hx

theorem lexemesFrom_window (p : Plan) :
    lexemesFrom d bound (window p) = (" ".toList ++ p.window.sql.toList).map .char := by
  simp [window, lexemesFrom]

theorem occurrences_limit (p : Plan) :
    Lexeme.occurrences ['I', 'M'] (lexemesFrom d bound (window p) ++ rest) =
      Lexeme.occurrences ['I', 'M'] rest + 1 := by
  have hsql : " ".toList ++ p.window.sql.toList = " L".toList ++ 'I' :: 'M' ::
      ("IT ".toList ++ (toString p.window.take).toList ++ " OFFSET ".toList ++
        (toString p.window.skip).toList) := by
    simp [window_sql]
  have hquiet : Lexeme.isQuiet 'I' 'M' ("MIT ".toList ++ (toString p.window.take).toList ++
      " OFFSET ".toList ++ (toString p.window.skip).toList) := by
    apply Lexeme.isQuiet_append _ (isQuiet_toString rfl _)
    apply Lexeme.isQuiet_append _ (by decide)
    exact Lexeme.isQuiet_append (by decide) (isQuiet_toString rfl _)
  rw [lexemesFrom_window, hsql]
  exact Lexeme.occurrences_between (by decide) hquiet

theorem occurrences_offset (p : Plan) :
    Lexeme.occurrences ['F', 'F'] (lexemesFrom d bound (window p) ++ rest) =
      Lexeme.occurrences ['F', 'F'] rest + 1 := by
  have hsql : " ".toList ++ p.window.sql.toList =
      (" LIMIT ".toList ++ (toString p.window.take).toList ++ " O".toList) ++ 'F' :: 'F' ::
        ("SET ".toList ++ (toString p.window.skip).toList) := by
    simp [window_sql]
  have hbefore : Lexeme.isQuiet 'F' 'F'
      (" LIMIT ".toList ++ (toString p.window.take).toList ++ " O".toList) := by
    apply Lexeme.isQuiet_append _ (by decide)
    exact Lexeme.isQuiet_append (by decide) (isQuiet_toString rfl _)
  have hafter : Lexeme.isQuiet 'F' 'F' ("FSET ".toList ++ (toString p.window.skip).toList) :=
    Lexeme.isQuiet_append (by decide) (isQuiet_toString rfl _)
  rw [lexemesFrom_window, hsql]
  exact Lexeme.occurrences_between hbefore hafter

theorem occurrences_window {x y : Char} (hxy : (x, y) ∈ windowPairs) (p : Plan) :
    Lexeme.occurrences [x, y] (lexemesFrom d bound (window p) ++ rest) =
      Lexeme.occurrences [x, y] rest + 1 := by
  simp only [windowPairs, List.mem_cons, Prod.mk.injEq, List.not_mem_nil, or_false] at hxy
  rcases hxy with ⟨rfl, rfl⟩ | ⟨rfl, rfl⟩
  · exact occurrences_limit p
  · exact occurrences_offset p

theorem occurrences_select {x y : Char} (hxy : (x, y) ∈ windowPairs) (p : Plan) :
    Lexeme.occurrences [x, y] (lexemesFrom d 0 (select p)) = 1 := by
  obtain ⟨before, after, hselect, hbefore, hafter, -⟩ := select_window p
  rw [hselect, lexemesFrom_append, lexemesFrom_append, List.append_assoc,
    occurrences_usual hxy hbefore, occurrences_window hxy,
    ← List.append_nil (lexemesFrom d _ after), occurrences_usual hxy hafter]
  rfl

theorem occurrences_count {x y : Char} (hxy : (x, y) ∈ windowPairs) (d : Dialect) (p : Plan) :
    Lexeme.occurrences [x, y] (lexemesFrom d 0 (count d p)) = 0 := by
  rw [← List.append_nil (lexemesFrom d 0 _), occurrences_usual hxy (isUsual_count d p)]
  rfl

theorem window_infix (p : Plan) :
    p.window.sql.toList.map .char <:+: lexemesFrom d 0 (select p) := by
  obtain ⟨before, after, hselect, -, -, -⟩ := select_window p
  rw [hselect, lexemesFrom_append, lexemesFrom_append, lexemesFrom_window, List.map_append,
    ← List.append_assoc (lexemesFrom d 0 before)]
  exact ⟨_, _, rfl⟩

theorem isOf_countHead (d : Dialect) (p : Plan) :
    IsOf ("SELECT COUNT(DISTINCT " :: ") AS " :: keyWords) (countScope d p).before := by
  have hkeys := (isOf_countedKeys d p.rootKeys).mono (List.subset_append_right
    ["SELECT COUNT(DISTINCT ", ") AS "] keyWords)
  exact ⟨by decide, hkeys.append_word (by decide) ⟨trivial, trivial⟩⟩

end Draft

namespace Plan

variable {p : Plan} {d : Dialect} {page count : Statement}

/-- What reading a page and its count shows: the same values, the same tables under the same
predicates, and a window in the page only. -/
structure SameRecords (p : Plan) (d : Dialect) (page count : Statement) (ls ms : List Lexeme) :
    Prop where
  scan_page : Lexeme.scan d.mark page.sql = some ls
  scan_count : Lexeme.scan d.mark count.sql = some ms
  params : page.params = if p.hasToMany then count.params ++ count.params else count.params
  tables : ∃ head tables, ms = head ++ tables ∧
    Lexeme.occurrences "FROM".toList head = 0 ∧ " FROM ".toList.map .char <+: tables ∧
    Lexeme.unnumbered d.sign ls = Draft.lexemes d (Draft.pageHead p) ++
      Lexeme.unnumbered d.sign tables ++ Draft.lexemes d (Draft.pageTail p)
  behind : if p.hasToMany then " GROUP BY ".toList.map .char <+: Draft.lexemes d (Draft.pageTail p)
    else " ORDER BY ".toList.map .char <+: Draft.lexemes d (Draft.pageTail p) ∨
      " LIMIT ".toList.map .char <+: Draft.lexemes d (Draft.pageTail p)
  window : Lexeme.occurrences p.window.sql.toList ls = 1
  limit : Lexeme.occurrences "LIMIT".toList ls = 1 ∧ Lexeme.occurrences "LIMIT".toList ms = 0
  offset : Lexeme.occurrences "OFFSET".toList ls = 1 ∧ Lexeme.occurrences "OFFSET".toList ms = 0

theorem params_page (p : Plan) (d : Dialect) : (Draft.statement d (Draft.select p)).params =
    if p.hasToMany then
      (Draft.statement d (Draft.count d p)).params ++ (Draft.statement d (Draft.count d p)).params
    else (Draft.statement d (Draft.count d p)).params := by
  have hpage : (Draft.statement d (Draft.select p)).params = _ :=
    Draft.filterMap_select Draft.seesParams_value p
  have hcount : (Draft.statement d (Draft.count d p)).params = _ :=
    Draft.filterMap_count Draft.seesParams_value d p
  rw [hpage, hcount]
  split
  · rfl
  · exact List.append_nil _

theorem tables_page (p : Plan) (d : Dialect) :
    ∃ head tables, (Draft.count d p).lexemesFrom d 0 = head ++ tables ∧
      Lexeme.occurrences "FROM".toList head = 0 ∧ " FROM ".toList.map .char <+: tables ∧
      Lexeme.unnumbered d.sign (Draft.lexemesFrom d 0 (Draft.select p)) =
        Draft.lexemes d (Draft.pageHead p) ++ Lexeme.unnumbered d.sign tables ++
          Draft.lexemes d (Draft.pageTail p) := by
  rw [Draft.count_eq_body, Draft.lexemesFrom_append]
  refine ⟨_, _, rfl, ?_, List.prefix_append _ _, ?_⟩
  · have hquiet : ∀ text ∈ "SELECT COUNT(DISTINCT " :: ") AS " :: Draft.keyWords,
        Lexeme.isQuiet 'F' 'R' text.toList := by
      decide
    have hsign : 'F' ≠ d.sign := by cases d <;> decide
    have hpair : Lexeme.occurrences ['F', 'R']
        (Draft.lexemesFrom d 0 (Draft.countScope d p).before ++ []) = 0 :=
      Draft.occurrences_lexemesFrom hquiet rfl hsign (Draft.isOf_countHead d p)
    rw [List.append_nil] at hpair
    have hstart : ['F', 'R'] <+: "FROM".toList := by decide
    exact Nat.le_zero.1 ((Lexeme.occurrences_le_of_start hstart).trans hpair.le)
  · rw [Lexeme.unnumbered, Lexeme.unnumbered,
      Draft.unnumberedFrom_lexemesFrom (Draft.isSpaced_select p),
      Draft.unnumberedFrom_lexemesFrom (Draft.isSpaced_body p), Draft.select_eq_body]
    simp only [Draft.lexemes, List.flatMap_append]

theorem behind_page (p : Plan) (d : Dialect) :
    if p.hasToMany then " GROUP BY ".toList.map .char <+: Draft.lexemes d (Draft.pageTail p)
    else " ORDER BY ".toList.map .char <+: Draft.lexemes d (Draft.pageTail p) ∨
      " LIMIT ".toList.map .char <+: Draft.lexemes d (Draft.pageTail p) := by
  rw [Draft.pageTail]
  split
  · exact List.prefix_append _ _
  · rw [Draft.ordering]
    split
    · have hwindow : Draft.lexemes d (Draft.window p) =
          (" ".toList ++ p.window.sql.toList).map .char := by
        simp [Draft.lexemes, Draft.window, Piece.lexemes]
      have hstart : " LIMIT ".toList <+: " ".toList ++ p.window.sql.toList :=
        ⟨(toString p.window.take ++ " OFFSET " ++ toString p.window.skip).toList,
          by simp [Draft.window_sql]⟩
      rw [List.nil_append, hwindow]
      exact .inr (hstart.map _)
    · exact .inl (List.prefix_append _ _)

theorem infix_sql (w : Window) :
    "LIMIT".toList <:+: w.sql.toList ∧ "OFFSET".toList <:+: w.sql.toList := by
  rw [Draft.window_sql]
  constructor
  · exact ⟨[], (" " ++ toString w.take ++ " OFFSET " ++ toString w.skip).toList, by simp⟩
  · exact ⟨("LIMIT " ++ toString w.take ++ " ").toList, (" " ++ toString w.skip).toList, by simp⟩

/-- A text within that of the window is where the window is, if it holds the characters that are
kept out of other words. -/
theorem occurrences_of_window {text : List Char} {x y : Char} (p : Plan) (d : Dialect)
    (hxy : (x, y) ∈ Draft.windowPairs) (h : [x, y] <:+: text)
    (hwindow : text <:+: p.window.sql.toList) :
    Lexeme.occurrences text (Draft.lexemesFrom d 0 (Draft.select p)) = 1 ∧
      Lexeme.occurrences text (Draft.lexemesFrom d 0 (Draft.count d p)) = 0 := by
  constructor
  · exact Lexeme.occurrences_eq_one ((hwindow.map _).trans (Draft.window_infix p)) h (by simp)
      (Draft.occurrences_select hxy p)
  · exact Nat.le_zero.1 ((Lexeme.occurrences_le_of_infix h (by simp)).trans
      (Draft.occurrences_count hxy d p).le)

/-- Whatever its names are, the page of a plan has the tables and predicates of its count, with the
same values, and is the one of both that has a window. -/
theorem sameRecords_statements (hpage : p.selectStatement d = .ok page)
    (hcount : p.countStatement d = .ok count) : ∃ ls ms, p.SameRecords d page count ls ms := by
  obtain ⟨-, rfl⟩ := Draft.statement?_eq_ok.1 hpage
  obtain ⟨-, rfl⟩ := Draft.statement?_eq_ok.1 hcount
  have hlimit : ('I', 'M') ∈ Draft.windowPairs := by decide
  have hoffset : ('F', 'F') ∈ Draft.windowPairs := by decide
  have hIM : ['I', 'M'] <:+: "LIMIT".toList := by decide
  have hFF : ['F', 'F'] <:+: "OFFSET".toList := by decide
  obtain ⟨hlimitIn, hoffsetIn⟩ := infix_sql p.window
  exact ⟨_, _, {
    scan_page := (Draft.isSpaced_select p).scan
    scan_count := (Draft.isSpaced_count d p).scan
    params := params_page p d
    tables := tables_page p d
    behind := behind_page p d
    window := (occurrences_of_window p d hlimit (hIM.trans hlimitIn) List.infix_rfl).1
    limit := occurrences_of_window p d hlimit hIM hlimitIn
    offset := occurrences_of_window p d hoffset hFF hoffsetIn }⟩

theorem sameRecords_statements_disguised :
    ∃ page count, disguised.selectStatement .postgres = .ok page ∧
      disguised.countStatement .postgres = .ok count ∧ count.params.length = 2 ∧
      ∃ ls ms, disguised.SameRecords .postgres page count ls ms := by
  have hpage : (disguised.selectStatement .postgres).toOption.map (·.params.length) = some 4 := by
    decide +kernel
  have hcount : (disguised.countStatement .postgres).toOption.map (·.params.length) = some 2 := by
    decide +kernel
  obtain ⟨page, hpage, -⟩ := exists_ok_of_map hpage
  obtain ⟨count, hcount, hlength⟩ := exists_ok_of_map hcount
  exact ⟨page, count, hpage, hcount, hlength, sameRecords_statements hpage hcount⟩

end Plan

end Listing
