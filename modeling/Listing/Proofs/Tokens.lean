import Listing.Proofs.Spacing
import Listing.Proofs.Windows
import Mathlib.Data.List.SplitBy

namespace Listing

inductive Token
  | name (name : String)
  | word (text : String)
  deriving DecidableEq, Repr

def Lexeme.char? : Lexeme → Option Char
  | .char c => some c
  | .name _ => none

namespace Token

def isMark (c : Char) : Bool := [' ', '(', ')', ',', '.'].contains c

def isLetter (c : Char) : Bool := c.isAlphanum || ['_', '$', '?'].contains c

def joined : Lexeme → Lexeme → Bool
  | .char a, .char b => !isMark a && !isMark b && isLetter a == isLetter b
  | _, _ => false

def ofRun : List Lexeme → Option Token
  | [.name n] => some (.name n)
  | [.char ' '] => none
  | run => some (.word (String.ofList (run.filterMap Lexeme.char?)))

def ofLexemes (ls : List Lexeme) : List Token := (ls.splitBy joined).filterMap ofRun

def ofText (text : String) : List Token := ofLexemes (text.toList.map .char)

def ofStatement? (d : Dialect) (st : Statement) : Option (List Token) :=
  (Lexeme.scan d.mark st.sql).map ofLexemes

variable {a b ls : List Lexeme}

theorem ofLexemes_append (h : ∀ x ∈ a.getLast?, ∀ y ∈ b.head?, joined x y = false) :
    ofLexemes (a ++ b) = ofLexemes a ++ ofLexemes b := by
  rw [ofLexemes, List.splitBy_append h, List.filterMap_append]
  rfl

theorem ofLexemes_name (n : String) (ls : List Lexeme) :
    ofLexemes (.name n :: ls) = .name n :: ofLexemes ls :=
  ofLexemes_append (a := [.name n]) fun _ hx _ _ ↦ by
    obtain rfl : Lexeme.name n = _ := by simpa using hx
    rfl

theorem ofLexemes_word {c : Char} {cs : List Char} (hmark : ∀ x ∈ c :: cs, isMark x = false)
    (hletter : ∀ x ∈ c :: cs, isLetter x) :
    ofLexemes ((c :: cs).map .char) = [.word (String.ofList (c :: cs))] := by
  have hchain : ((c :: cs).map Lexeme.char).IsChain fun x y ↦ joined x y := by
    apply List.Pairwise.isChain
    rw [List.pairwise_map]
    apply List.pairwise_of_forall_mem_list
    intro x hx y hy
    simp [joined, hmark x hx, hmark y hy, hletter x hx, hletter y hy]
  have hblank : c ≠ ' ' := by
    rintro rfl
    exact absurd (hmark ' ' List.mem_cons_self) (by decide)
  rw [ofLexemes, List.splitBy_of_isChain (by simp) hchain, List.filterMap_cons, List.filterMap_nil]
  rw [ofRun.eq_3]
  · simp only [List.filterMap_map, Function.comp_def, Lexeme.char?, List.filterMap_some]
  · simp
  · simp [hblank]

theorem ofText_of_letters {text : String} (hne : text.toList ≠ [])
    (h : ∀ c ∈ text.toList, isMark c = false ∧ isLetter c) : ofText text = [.word text] := by
  obtain ⟨c, cs, htext⟩ := List.exists_cons_of_ne_nil hne
  rw [htext] at h
  rw [ofText, htext, ofLexemes_word (fun c hc ↦ (h c hc).1) fun c hc ↦ (h c hc).2, ← htext,
    String.ofList_toList]

theorem isLetter_of_isDigit {c : Char} (h : c.isDigit) : isMark c = false ∧ isLetter c := by
  constructor
  · have hmarks : [' ', '(', ')', ',', '.'].all fun c ↦ !c.isDigit := by decide
    cases hmark : isMark c with
    | false => rfl
    | true =>
      have hdigit := List.all_eq_true.1 hmarks c (by simpa [isMark] using hmark)
      simp [h] at hdigit
  · simp [isLetter, Char.isAlphanum, h]

@[simp] theorem ofText_blank : ofText " " = [] := by decide

@[simp] theorem ofText_comma : ofText ", " = [.word ","] := by decide

@[simp] theorem ofText_opening : ofText "(" = [.word "("] := by decide

@[simp] theorem ofText_closing : ofText ")" = [.word ")"] := by decide

@[simp] theorem ofText_and : ofText " AND " = [.word "AND"] := by decide

@[simp] theorem ofText_select : ofText "SELECT " = [.word "SELECT"] := by decide

@[simp] theorem ofText_from : ofText " FROM " = [.word "FROM"] := by decide

@[simp] theorem ofText_fromQuery :
    ofText " FROM (SELECT " = [.word "FROM", .word "(", .word "SELECT"] := by
  decide

@[simp] theorem ofText_as : ofText " AS " = [.word "AS"] := by decide

@[simp] theorem ofText_where : ofText " WHERE " = [.word "WHERE"] := by decide

@[simp] theorem ofText_whereOpening : ofText " WHERE (" = [.word "WHERE", .word "("] := by decide

@[simp] theorem ofText_closing_and : ofText ") AND " = [.word ")", .word "AND"] := by decide

@[simp] theorem ofText_grouping : ofText " GROUP BY " = [.word "GROUP", .word "BY"] := by decide

@[simp] theorem ofText_closing_as : ofText ") AS " = [.word ")", .word "AS"] := by decide

end Token

namespace Draft

open Token

/-- The tokens of a draft after `bound` values, piece by piece. -/
def tokensFrom (d : Dialect) (bound : Nat) : Draft → List Token
  | [] => []
  | .word text :: ps => Token.ofText text ++ tokensFrom d bound ps
  | .name n :: ps => .name n :: tokensFrom d bound ps
  | .value _ :: ps => .word (d.placeholder (bound + 1)) :: tokensFrom d (bound + 1) ps
  | .unbound _ :: ps => tokensFrom d bound ps

def startsApart (text : String) : Bool := text.toList.head?.any isMark

def endsApart (text : String) : Bool := text.toList.getLast?.any isMark

/-- Whether a word or a value may stand right before. -/
def StartsApart : Draft → Prop
  | [] | .name _ :: _ => True
  | .word text :: _ => startsApart text
  | _ => False

def IsApart : Draft → Prop
  | [] => True
  | .name _ :: ps => IsApart ps
  | .word text :: ps => (endsApart text ∨ StartsApart ps) ∧ IsApart ps
  | .value _ :: ps | .unbound _ :: ps => StartsApart ps ∧ IsApart ps

variable {d : Dialect} {bound : Nat} {draft x y : Draft} {text separator : String}

@[simp] theorem tokensFrom_nil : tokensFrom d bound [] = [] := rfl

@[simp] theorem tokensFrom_word (text : String) (ps : Draft) :
    tokensFrom d bound (.word text :: ps) = Token.ofText text ++ tokensFrom d bound ps := rfl

@[simp] theorem tokensFrom_name (n : String) (ps : Draft) :
    tokensFrom d bound (.name n :: ps) = .name n :: tokensFrom d bound ps := rfl

@[simp] theorem tokensFrom_append (x y : Draft) : tokensFrom d bound (x ++ y) =
    tokensFrom d bound x ++ tokensFrom d (bound + (values x).length) y := by
  induction x generalizing bound with
  | nil => rfl
  | cons piece x ih =>
    cases piece with
    | value v =>
      have hlength : (values (.value v :: x)).length = 1 + (values x).length := Nat.add_comm _ 1
      rw [List.cons_append, tokensFrom, tokensFrom, ih, hlength, List.cons_append, Nat.add_assoc]
    | word | name =>
      rw [List.cons_append, tokensFrom, tokensFrom, ih]
      simp [values]
    | unbound n => exact ih

/-- The members of a list with the number of values before each of them. -/
def numbered {β : Type} (f : β → Draft) (bound : Nat) : List β → List (Nat × β)
  | [] => []
  | a :: l => (bound, a) :: numbered f (bound + (values (f a)).length) l

theorem map_snd_numbered {β : Type} (f : β → Draft) (bound : Nat) (l : List β) :
    (numbered f bound l).map Prod.snd = l := by
  induction l generalizing bound with
  | nil => rfl
  | cons a l ih => rw [numbered, List.map_cons, ih]

theorem mem_of_mem_numbered {β : Type} {f : β → Draft} {l : List β} {m : Nat × β}
    (h : m ∈ numbered f bound l) : m.2 ∈ l := by
  rw [← map_snd_numbered f bound l]
  exact List.mem_map_of_mem h

theorem tokensFrom_separated {β : Type} (separator : String) (f : β → Draft) (l : List β) :
    tokensFrom d bound (separated separator (l.map f)) =
      (Token.ofText separator).intercalate
        ((numbered f bound l).map fun m ↦ tokensFrom d m.1 (f m.2)) := by
  induction l generalizing bound with
  | nil => rfl
  | cons a l ih =>
    cases l with
    | nil => simp [numbered]
    | cons b l =>
      rw [List.map_cons] at ih
      rw [List.map_cons, List.map_cons, separated_cons_cons, tokensFrom_append, tokensFrom_word,
        ih]
      simp [numbered, List.append_assoc]

theorem StartsApart.append (hx : StartsApart x) (hy : StartsApart y) : StartsApart (x ++ y) := by
  match x, hx with
  | [], _ => exact hy
  | .name _ :: _, _ => trivial
  | .word _ :: _, h => exact h

theorem IsApart.append (hx : IsApart x) (hy : IsApart y) (hs : StartsApart y) :
    IsApart (x ++ y) := by
  induction x with
  | nil => exact hy
  | cons piece x ih =>
    cases piece with
    | name => exact ih hx
    | word => exact ⟨hx.1.imp_right (·.append hs), ih hx.2⟩
    | value | unbound => exact ⟨hx.1.append hs, ih hx.2⟩

theorem IsApart.append_word (hx : IsApart x) (hstart : startsApart text) (hend : endsApart text)
    (hy : IsApart y) : IsApart (x ++ .word text :: y) := hx.append ⟨.inl hend, hy⟩ hstart

theorem isApart_separated {β : Type} {f : β → Draft} {l : List β} (hstart : startsApart separator)
    (hend : endsApart separator) (h : ∀ a ∈ l, IsApart (f a)) :
    IsApart (separated separator (l.map f)) := by
  induction l with
  | nil => trivial
  | cons a l ih =>
    obtain ⟨ha, hl⟩ := List.forall_mem_cons.1 h
    cases l with
    | nil => simpa using ha
    | cons b l =>
      rw [List.map_cons, List.map_cons, separated_cons_cons]
      exact ha.append_word hstart hend (ih hl)

theorem joined_mark {c : Char} (hc : isMark c) (l : Lexeme) :
    joined (.char c) l = false ∧ joined l (.char c) = false := by
  cases l <;> simp [joined, hc]

theorem joined_head (h : StartsApart draft) (l : Lexeme) :
    ∀ m ∈ (lexemesFrom d bound draft).head?, joined l m = false := by
  intro m hm
  match draft, h with
  | [], _ => simp [lexemesFrom] at hm
  | .name n :: ps, _ =>
    obtain rfl : Lexeme.name n = m := by simpa [lexemesFrom] using hm
    cases l <;> rfl
  | .word text :: ps, h =>
    obtain ⟨c, hc, hmark⟩ := (Option.any_eq_true _ _).1 h
    obtain rfl : Lexeme.char c = m := by simpa [lexemesFrom, hc] using hm
    exact (joined_mark hmark l).2

theorem ofText_placeholder (d : Dialect) (index : Nat) :
    Token.ofText (d.placeholder index) = [.word (d.placeholder index)] := by
  have hsign : isMark d.sign = false ∧ isLetter d.sign := by cases d <;> decide
  apply ofText_of_letters
  · rw [d.placeholder_toList]
    exact List.cons_ne_nil _ _
  · rw [d.placeholder_toList, List.forall_mem_cons]
    exact ⟨hsign, fun c hc ↦ isLetter_of_isDigit (Dialect.isDigit_of_mem_digits hc)⟩

theorem ofText_toString (n : Nat) : Token.ofText (toString n) = [.word (toString n)] := by
  apply ofText_of_letters
  · simp [Nat.toString_eq_repr, Nat.repr, Nat.toDigits_ne_nil]
  · exact fun c hc ↦ isLetter_of_isDigit (Text.isDigit_of_mem_toString hc)

/-- Words that do not touch are read as they were written. -/
theorem ofLexemes_lexemesFrom (h : IsApart draft) (bound : Nat) :
    ofLexemes (lexemesFrom d bound draft) = tokensFrom d bound draft := by
  induction draft generalizing bound with
  | nil => rfl
  | cons piece ps ih =>
    cases piece with
    | word text =>
      rw [lexemesFrom, ofLexemes_append, ih h.2]
      · rfl
      · intro l hl m hm
        rcases h.1 with hend | hstart
        · obtain ⟨c, hc, hmark⟩ := (Option.any_eq_true _ _).1 hend
          obtain rfl : Lexeme.char c = l := by simpa [hc] using hl
          exact (joined_mark hmark m).1
        · exact joined_head hstart l m hm
    | name n => rw [lexemesFrom, ofLexemes_name, ih h]; rfl
    | value v =>
      have hword := ofText_placeholder d (bound + 1)
      rw [Token.ofText] at hword
      rw [lexemesFrom, ofLexemes_append fun l _ ↦ joined_head h.1 l, ih h.2, hword]
      rfl
    | unbound n => exact ih h.2 bound

theorem ofText_window (w : Window) : Token.ofText w.sql =
    [.word "LIMIT", .word (toString w.take), .word "OFFSET", .word (toString w.skip)] := by
  let draft : Draft := [.word "LIMIT ", .word (toString w.take), .word " OFFSET ",
    .word (toString w.skip)]
  have hapart : IsApart draft := ⟨.inl rfl, .inr rfl, .inl rfl, .inr trivial, trivial⟩
  have hchars : lexemesFrom .postgres 0 draft = w.sql.toList.map .char := by
    simp [draft, lexemesFrom, window_sql]
  have htake := ofText_toString w.take
  have hskip := ofText_toString w.skip
  have hlimit : Token.ofText "LIMIT " = [.word "LIMIT"] := by decide
  have hoffset : Token.ofText " OFFSET " = [.word "OFFSET"] := by decide
  rw [Token.ofText, ← hchars, ofLexemes_lexemesFrom hapart]
  simp only [draft, tokensFrom_word, tokensFrom_nil, htake, hskip, hlimit, hoffset]
  rfl

theorem ofStatement?_statement (hspaced : IsSpaced draft) (hapart : IsApart draft) :
    Token.ofStatement? d (statement d draft) = some (tokensFrom d 0 draft) := by
  rw [Token.ofStatement?, hspaced.scan, Option.map_some, ofLexemes_lexemesFrom hapart]

theorem isApart_column (c : ColumnRef) : IsApart (column c) := ⟨.inr trivial, trivial⟩

theorem isApart_columns (cs : List ColumnRef) : IsApart (columns cs) :=
  isApart_separated rfl rfl fun c _ ↦ isApart_column c

theorem isApart_param (b : Bindings) (n : String) : IsApart (param b n) := by
  rw [param]
  split
  · exact ⟨trivial, trivial⟩
  · exact isApart_separated rfl rfl fun _ _ ↦ ⟨trivial, trivial⟩
  · exact ⟨trivial, trivial⟩

theorem isApart_predicate (b : Bindings) (q : Predicate) : IsApart (predicate b q) := by
  induction q using Predicate.induction with
  | compare c comparison n =>
    exact (isApart_column c).append_word rfl rfl ⟨.inr rfl, .inl rfl, isApart_param b n⟩
  | ilike c n =>
    exact ⟨.inl rfl, (isApart_column c).append_word rfl rfl
      ((isApart_param b n).append_word rfl rfl trivial)⟩
  | inList c negated n empty =>
    rw [predicate]
    split
    · exact ⟨.inr trivial, trivial⟩
    · exact (isApart_column c).append_word (by cases negated <;> rfl) (by cases negated <;> rfl)
        ((isApart_param b n).append_word rfl rfl trivial)
  | between c low high =>
    exact (isApart_column c).append_word rfl rfl
      ((isApart_param b low).append_word rfl rfl (isApart_param b high))
  | null c negated =>
    exact (isApart_column c).append ⟨.inr trivial, trivial⟩ (by cases negated <;> rfl)
  | any group ih =>
    rw [predicate, predicates_eq]
    exact ⟨.inl rfl, (isApart_separated rfl rfl ih).append_word rfl rfl trivial⟩

theorem isApart_conjunction (p : Plan) : IsApart (conjunction p) :=
  isApart_separated rfl rfl fun q _ ↦ isApart_predicate p.bindings q

theorem isApart_selection (p : Plan) : IsApart (selection p) := by
  rw [selection]
  split
  · exact ⟨.inr trivial, trivial⟩
  · exact isApart_separated rfl rfl fun c _ ↦ (isApart_column c.column).append_word rfl rfl trivial

theorem isApart_equal (pair : ColumnRef × ColumnRef) : IsApart (equal pair) :=
  (isApart_column pair.1).append_word rfl rfl (isApart_column pair.2)

theorem isApart_join (j : Join) : IsApart (join j) := by
  have hon : IsApart (separated " AND " (j.on.map equal)) :=
    isApart_separated rfl rfl fun pair _ ↦ isApart_equal pair
  rw [join]
  refine IsApart.append_word ?_ rfl rfl ⟨.inl rfl, .inl rfl, ?_⟩
  · cases j.link with
    | none => trivial
    | some l => exact ⟨.inl rfl, .inl rfl, .inl rfl, isApart_equal l.onParent⟩
  · cases j.softDelete with
    | none => simpa using hon
    | some c =>
      exact hon.append_word rfl rfl ((isApart_column c).append ⟨.inr trivial, trivial⟩ rfl)

theorem startsApart_join (j : Join) : StartsApart (join j) := by
  rw [join]
  cases j.link <;> rfl

theorem isApart_joins (js : List Join) :
    StartsApart (js.flatMap join) ∧ IsApart (js.flatMap join) := by
  induction js with
  | nil => exact ⟨trivial, trivial⟩
  | cons j js ih =>
    rw [List.flatMap_cons]
    exact ⟨(startsApart_join j).append ih.1, (isApart_join j).append ih.2 ih.1⟩

theorem isApart_tables (p : Plan) : IsApart (tables p) :=
  ⟨.inl rfl, .inl rfl, (isApart_joins p.joins).2⟩

theorem isApart_body (p : Plan) : IsApart (body p) := by
  rw [body, restriction]
  split
  · simpa using isApart_tables p
  · exact (isApart_tables p).append_word rfl rfl (isApart_conjunction p)

theorem isApart_ordered (grouped : Bool) (o : OrderBy) : IsApart (ordered grouped o) := by
  rw [ordered]
  refine IsApart.append_word ?_ rfl rfl ⟨.inr trivial, trivial⟩
  cases grouped with
  | false => exact isApart_column o.column
  | true =>
    exact ⟨.inl (by cases o.order <;> rfl), (isApart_column o.column).append_word rfl rfl trivial⟩

theorem isApart_ordering (p : Plan) (grouped : Bool) :
    StartsApart (ordering p grouped) ∧ IsApart (ordering p grouped) := by
  rw [ordering]
  split
  · exact ⟨trivial, trivial⟩
  · exact ⟨rfl, .inl rfl, isApart_separated rfl rfl fun o _ ↦ isApart_ordered grouped o⟩

theorem isApart_window (p : Plan) : IsApart (window p) := ⟨.inl rfl, .inr trivial, trivial⟩

theorem isApart_count (d : Dialect) (p : Plan) : IsApart (count d p) := by
  have hkeys : IsApart (countedKeys d p.rootKeys) := by
    unfold countedKeys
    split
    · exact isApart_column _
    · cases d with
      | postgres => exact ⟨.inl rfl, (isApart_columns _).append_word rfl rfl trivial⟩
      | mysql => exact isApart_columns _
      | sqlite => exact isApart_separated rfl rfl fun c _ ↦ isApart_column c
  exact ⟨.inl rfl, hkeys.append_word rfl rfl (isApart_body p)⟩

theorem isApart_pageKeys (p : Plan) : IsApart (pageKeys p) := by
  have hkeys := isApart_columns p.rootKeys
  obtain ⟨hstarts, hordering⟩ := isApart_ordering p true
  have hopening : IsApart (pageKeysOpening p) := by
    refine IsApart.append ?_ ⟨.inl rfl, (isApart_columns _).append_word rfl rfl hkeys⟩ rfl
    split
    · exact ⟨.inl rfl, hkeys.append_word rfl rfl trivial⟩
    · exact hkeys
  have hclosing : IsApart (pageKeysClosing p) :=
    ⟨.inl rfl, ((hkeys.append hordering hstarts).append (isApart_window p) rfl).append
      ⟨.inl rfl, .inl rfl, trivial⟩ rfl⟩
  rw [pageKeys_eq]
  exact (hopening.append (isApart_body p) rfl).append hclosing rfl

theorem isApart_select (p : Plan) : IsApart (select p) := by
  obtain ⟨hstarts, hordering⟩ := isApart_ordering p false
  have hkeys := (isApart_pageKeys p).append hordering hstarts
  have htables := isApart_tables p
  rw [select]
  refine ⟨.inl rfl, (isApart_selection p).append ?_ (by split <;> rfl)⟩
  split
  · cases p.predicates.isEmpty with
    | true => simpa using htables.append_word rfl rfl hkeys
    | false =>
      have hrows : IsApart (tables p ++ .word " WHERE (" :: (conjunction p ++ .word ") AND " ::
          (pageKeys p ++ ordering p false))) :=
        htables.append_word rfl rfl ((isApart_conjunction p).append_word rfl rfl hkeys)
      simpa using hrows
  · exact ((isApart_body p).append hordering hstarts).append (isApart_window p) rfl

end Draft

end Listing
