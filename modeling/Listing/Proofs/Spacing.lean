import Listing.Proofs.Drafts
import Listing.Proofs.Lexemes
import Listing.Proofs.Text

namespace Listing

namespace Dialect

def sign : Dialect → Char
  | postgres => '$'
  | mysql | sqlite => '?'

def digits (d : Dialect) (index : Nat) : List Char :=
  match d with
  | postgres => (toString index).toList
  | mysql | sqlite => []

theorem placeholder_toList (d : Dialect) (index : Nat) :
    (d.placeholder index).toList = d.sign :: d.digits index := by
  cases d <;> simp [placeholder, sign, digits]

theorem isDigit_of_mem_digits {d : Dialect} {index : Nat} {c : Char} (h : c ∈ d.digits index) :
    c.isDigit := by
  cases d with
  | postgres => exact Text.isDigit_of_mem_toString h
  | mysql | sqlite => simp [digits] at h

theorem isDigit_sign (d : Dialect) : d.sign.isDigit = false := by cases d <;> rfl

theorem isDigit_mark (d : Dialect) : d.mark.isDigit = false := by cases d <;> rfl

theorem mark_ne_sign (d : Dialect) : d.mark ≠ d.sign := by cases d <;> decide

theorem mark_not_mem_placeholder (d : Dialect) (index : Nat) :
    d.mark ∉ (d.placeholder index).toList := by
  rw [placeholder_toList, List.mem_cons, not_or]
  refine ⟨d.mark_ne_sign, fun h ↦ ?_⟩
  have hdigit := isDigit_of_mem_digits h
  rw [d.isDigit_mark] at hdigit
  simp at hdigit

end Dialect

namespace Lexeme

variable {sign : Char} {ls : List Lexeme}

theorem digits_append {ds : List Char} (h : ∀ c ∈ ds, c.isDigit) :
    digits (ds.map .char ++ ls) = ds ++ digits ls := by
  induction ds with
  | nil => rfl
  | cons c ds ih =>
    rw [List.forall_mem_cons] at h
    simp [digits, h.1, ih h.2]

theorem placeholders_append {cs : List Char} (h : sign ∉ cs) :
    placeholders sign (cs.map .char ++ ls) = placeholders sign ls := by
  induction cs with
  | nil => rfl
  | cons c cs ih =>
    simp only [List.mem_cons, not_or] at h
    simp [placeholders, Ne.symm h.1, ih h.2]

theorem placeholders_placeholder (d : Dialect) (index : Nat) (h : digits ls = []) :
    placeholders d.sign ((d.placeholder index).toList.map .char ++ ls) =
      d.placeholder index :: placeholders d.sign ls := by
  have hdigits : ∀ c ∈ d.digits index, c.isDigit := fun _ ↦ Dialect.isDigit_of_mem_digits
  have hsign : d.sign ∉ d.digits index := fun hmem ↦ by
    have := hdigits _ hmem
    rw [d.isDigit_sign] at this
    simp at this
  rw [d.placeholder_toList, List.map_cons, List.cons_append, placeholders, if_pos rfl,
    digits_append hdigits, h, List.append_nil, placeholders_append hsign, ← d.placeholder_toList,
    String.ofList_toList]

end Lexeme

namespace Draft

def signs : List Char := ['"', '\x60', '$', '?']

/-- A word is no sign, and does not go on with the digits of a placeholder. -/
def isWord (text : String) : Bool :=
  match text.toList with
  | [] => false
  | c :: cs => !c.isDigit && (c :: cs).all (!signs.contains ·)

/-- Whether a name or a value may stand right before. -/
def EndsPiece : Draft → Prop
  | [] | .word _ :: _ => True
  | _ => False

def IsSpaced : Draft → Prop
  | [] => True
  | .word text :: ps => isWord text ∧ IsSpaced ps
  | .name _ :: ps | .value _ :: ps | .unbound _ :: ps => EndsPiece ps ∧ IsSpaced ps

/-- The lexemes of a draft after `bound` values. -/
def lexemesFrom (d : Dialect) (bound : Nat) : Draft → List Lexeme
  | [] => []
  | .word text :: ps => text.toList.map .char ++ lexemesFrom d bound ps
  | .name n :: ps => .name n :: lexemesFrom d bound ps
  | .value _ :: ps =>
    (d.placeholder (bound + 1)).toList.map .char ++ lexemesFrom d (bound + 1) ps
  | .unbound _ :: ps => lexemesFrom d bound ps

def quoted (draft : Draft) : List String :=
  draft.filterMap fun
    | .name n => some n
    | _ => none

theorem isWord_iff {text : String} :
    isWord text ↔ ∃ c cs, text.toList = c :: cs ∧ c.isDigit = false ∧ ∀ x ∈ c :: cs, x ∉ signs := by
  rw [isWord]
  cases text.toList with
  | nil => simp
  | cons c cs =>
    simp only [Bool.and_eq_true, Bool.not_eq_true', List.all_eq_true, List.cons.injEq]
    constructor
    · rintro ⟨hc, hall⟩
      exact ⟨c, cs, ⟨rfl, rfl⟩, hc, fun x hx ↦ by simpa using hall x hx⟩
    · rintro ⟨_, _, ⟨rfl, rfl⟩, hc, hall⟩
      exact ⟨hc, fun x hx ↦ by simpa using hall x hx⟩

theorem not_mem_of_isWord {text : String} {c : Char} (h : isWord text) (hc : c ∈ signs) :
    c ∉ text.toList := by
  obtain ⟨x, xs, htext, -, hsigns⟩ := isWord_iff.1 h
  exact fun hmem ↦ hsigns c (htext ▸ hmem) hc

theorem mark_mem_signs (d : Dialect) : d.mark ∈ signs := by cases d <;> decide

theorem sign_mem_signs (d : Dialect) : d.sign ∈ signs := by cases d <;> decide

variable {d : Dialect} {draft : Draft}

theorem head_textFrom_ne_mark (he : EndsPiece draft) (h : IsSpaced draft) (bound : Nat) :
    (textFrom d bound draft).head? ≠ some d.mark := by
  match draft, he with
  | [], _ => simp [textFrom]
  | .word text :: ps, _ =>
    obtain ⟨c, cs, htext, -, hsigns⟩ := isWord_iff.1 h.1
    rw [textFrom, htext, List.cons_append, List.head?_cons]
    rintro hmark
    exact hsigns c List.mem_cons_self (Option.some.inj hmark ▸ mark_mem_signs d)

theorem digits_lexemesFrom (he : EndsPiece draft) (h : IsSpaced draft) (bound : Nat) :
    Lexeme.digits (lexemesFrom d bound draft) = [] := by
  match draft, he with
  | [], _ => rfl
  | .word text :: ps, _ =>
    obtain ⟨c, cs, htext, hdigit, -⟩ := isWord_iff.1 h.1
    simp [lexemesFrom, htext, Lexeme.digits, hdigit]

theorem scanFrom_textFrom (h : IsSpaced draft) (bound : Nat) :
    Lexeme.scanFrom d.mark .outside (textFrom d bound draft) =
      some (lexemesFrom d bound draft) := by
  -- a piece is read up to the one after it: words and placeholders hold no mark, and no mark
  -- follows a name
  induction draft generalizing bound with
  | nil => rfl
  | cons piece ps ih =>
    cases piece with
    | word text =>
      rw [textFrom, Lexeme.scanFrom_outside (not_mem_of_isWord h.1 (mark_mem_signs d)), ih h.2]
      rfl
    | name n =>
      rw [textFrom, Lexeme.scanFrom_quoteName n (head_textFrom_ne_mark h.1 h.2 bound), ih h.2]
      rfl
    | value v =>
      rw [textFrom, Lexeme.scanFrom_outside (d.mark_not_mem_placeholder _), ih h.2]
      rfl
    | unbound n => exact ih h.2 bound

theorem IsSpaced.scan (h : IsSpaced draft) :
    Lexeme.scan d.mark (statement d draft).sql = some (lexemesFrom d 0 draft) := by
  rw [Lexeme.scan, statement, String.toList_ofList]
  exact scanFrom_textFrom h 0

theorem names_lexemesFrom (bound : Nat) :
    Lexeme.names (lexemesFrom d bound draft) = draft.quoted := by
  have hchars (cs : List Char) : Lexeme.names (cs.map .char) = [] := by
    simp [Lexeme.names]
  have happend (ls ls' : List Lexeme) :
      Lexeme.names (ls ++ ls') = Lexeme.names ls ++ Lexeme.names ls' := List.filterMap_append
  induction draft generalizing bound with
  | nil => rfl
  | cons piece ps ih =>
    cases piece with
    | word text => rw [lexemesFrom, happend, hchars, ih]; rfl
    | name n => exact congrArg (n :: ·) (ih bound)
    | value v => rw [lexemesFrom, happend, hchars, ih]; rfl
    | unbound n => exact ih bound

theorem placeholders_lexemesFrom (h : IsSpaced draft) (bound : Nat) :
    Lexeme.placeholders d.sign (lexemesFrom d bound draft) =
      (List.range' (bound + 1) draft.values.length).map d.placeholder := by
  -- the values written so far give the next placeholder its number
  induction draft generalizing bound with
  | nil => rfl
  | cons piece ps ih =>
    cases piece with
    | word text =>
      rw [lexemesFrom, Lexeme.placeholders_append (not_mem_of_isWord h.1 (sign_mem_signs d)),
        ih h.2]
      rfl
    | name n => exact ih h.2 bound
    | value v =>
      rw [lexemesFrom, Lexeme.placeholders_placeholder d _ (digits_lexemesFrom h.1 h.2 _), ih h.2]
      rfl
    | unbound n => exact ih h.2 bound

theorem EndsPiece.append {a b : Draft} (ha : EndsPiece a) (hb : EndsPiece b) :
    EndsPiece (a ++ b) := by
  match a, ha with
  | [], _ => exact hb
  | .word _ :: _, _ => trivial

theorem window_sql (w : Window) :
    w.sql = "LIMIT " ++ toString w.take ++ " OFFSET " ++ toString w.skip := rfl

theorem isWord_window (w : Window) : isWord w.sql := by
  have hdigits (n : Nat) : ∀ x ∈ (toString n).toList, x ∉ signs := by
    intro x hx hsign
    have hsigns : signs.all fun x ↦ !x.isDigit := by decide
    have hdigit := List.all_eq_true.1 hsigns x hsign
    simp [Text.isDigit_of_mem_toString hx] at hdigit
  have hword (text : String) (h : text.toList.all fun x ↦ !signs.contains x) :
      ∀ x ∈ text.toList, x ∉ signs := by
    simpa using h
  have htext : w.sql.toList = 'L' :: ("IMIT ".toList ++ (toString w.take).toList ++
      " OFFSET ".toList ++ (toString w.skip).toList) := by
    simp [window_sql]
  refine isWord_iff.2 ⟨_, _, htext, rfl, ?_⟩
  simp only [List.forall_mem_cons, List.forall_mem_append]
  exact ⟨by decide, ⟨⟨hword "IMIT " (by decide), hdigits w.take⟩, hword " OFFSET " (by decide)⟩,
    hdigits w.skip⟩

end Draft

end Listing
