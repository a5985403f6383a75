import Listing.Proofs.Lexemes
import Mathlib.Data.List.Infix

namespace Listing.Lexeme

/-- The lexemes without the numbers of placeholders, which are the digits behind a sign. -/
def unnumberedFrom (sign : Char) : Bool → List Lexeme → List Lexeme
  | _, [] => []
  | _, .name n :: ls => .name n :: unnumberedFrom sign false ls
  | behindSign, .char c :: ls =>
    if behindSign && c.isDigit then unnumberedFrom sign true ls
    else .char c :: unnumberedFrom sign (c == sign) ls

def unnumbered (sign : Char) (ls : List Lexeme) : List Lexeme := unnumberedFrom sign false ls

/-- At how many places a text begins. -/
def occurrences (text : List Char) : List Lexeme → Nat
  | [] => 0
  | l :: ls => occurrences text ls + if text.map .char <+: l :: ls then 1 else 0

variable {text part cs : List Char} {ls : List Lexeme} {a b c sign : Char}

theorem unnumberedFrom_digits (h : ∀ c ∈ cs, c.isDigit) :
    unnumberedFrom sign true (cs.map .char ++ ls) = unnumberedFrom sign true ls := by
  induction cs with
  | nil => rfl
  | cons c cs ih =>
    obtain ⟨hc, hcs⟩ := List.forall_mem_cons.1 h
    rw [List.map_cons, List.cons_append, unnumberedFrom, hc, Bool.true_and, if_pos rfl, ih hcs]

theorem unnumberedFrom_chars (h : sign ∉ cs) :
    unnumberedFrom sign false (cs.map .char ++ ls) =
      cs.map .char ++ unnumberedFrom sign false ls := by
  induction cs with
  | nil => rfl
  | cons c cs ih =>
    simp only [List.mem_cons, not_or] at h
    have hc : (c == sign) = false := by simpa using Ne.symm h.1
    simp [unnumberedFrom, hc, ih h.2]

theorem occurrences_cons_le_tail (h : text ≠ []) (l : Lexeme) :
    occurrences (c :: text) (l :: ls) ≤ occurrences text ls := by
  induction ls generalizing l with
  | nil =>
    have hnot : ¬(c :: text).map Lexeme.char <+: [l] := by
      rw [List.map_cons, List.cons_prefix_cons, List.prefix_nil, List.map_eq_nil_iff]
      exact fun hl ↦ h hl.2
    simp only [occurrences, if_neg hnot]
    omega
  | cons m ms ih =>
    rw [occurrences, occurrences]
    apply Nat.add_le_add (ih m)
    by_cases hc : (c :: text).map Lexeme.char <+: l :: m :: ms
    · have htext := (List.cons_prefix_cons.1 (List.map_cons ▸ hc)).2
      rw [if_pos hc, if_pos htext]
    · rw [if_neg hc]
      exact Nat.zero_le _

theorem occurrences_cons_le (h : text ≠ []) :
    occurrences (c :: text) ls ≤ occurrences text ls := by
  cases ls with
  | nil => exact le_rfl
  | cons l ls =>
    apply (occurrences_cons_le_tail h l).trans
    rw [occurrences]
    omega

theorem occurrences_append_le (h : text ≠ []) (before : List Char) :
    occurrences (before ++ text) ls ≤ occurrences text ls := by
  induction before with
  | nil => exact le_rfl
  | cons c before ih => exact (occurrences_cons_le (by simp [h])).trans ih

theorem occurrences_le_of_start (h : part <+: text) :
    occurrences text ls ≤ occurrences part ls := by
  induction ls with
  | nil => exact le_rfl
  | cons l ls ih =>
    rw [occurrences, occurrences]
    apply Nat.add_le_add ih
    by_cases htext : text.map Lexeme.char <+: l :: ls
    · rw [if_pos htext, if_pos ((h.map _).trans htext)]
    · rw [if_neg htext]
      exact Nat.zero_le _

theorem occurrences_le_of_infix (h : part <:+: text) (hpart : part ≠ []) :
    occurrences text ls ≤ occurrences part ls := by
  obtain ⟨before, after, rfl⟩ := h
  rw [List.append_assoc]
  exact (occurrences_append_le (by simp [hpart]) before).trans
    (occurrences_le_of_start (List.prefix_append part after))

theorem occurrences_le_append (before : List Lexeme) :
    occurrences text ls ≤ occurrences text (before ++ ls) := by
  induction before with
  | nil => exact le_rfl
  | cons l before ih =>
    rw [List.cons_append, occurrences]
    omega

theorem occurrences_pos (h : text.map .char <:+: ls) (hne : text ≠ []) :
    0 < occurrences text ls := by
  obtain ⟨before, after, rfl⟩ := h
  rw [List.append_assoc]
  apply Nat.lt_of_lt_of_le _ (occurrences_le_append before)
  cases text with
  | nil => exact absurd rfl hne
  | cons c text =>
    rw [List.map_cons, List.cons_append, occurrences, if_pos]
    · omega
    · exact List.prefix_append (.char c :: text.map .char) after

/-- A text that is there occurs once where some part of it does. -/
theorem occurrences_eq_one (hin : text.map .char <:+: ls) (h : part <:+: text) (hne : part ≠ [])
    (hone : occurrences part ls = 1) : occurrences text ls = 1 := by
  have htext : text ≠ [] := by
    rintro rfl
    exact hne (List.infix_nil.1 h)
  have hpos := occurrences_pos hin htext
  have hle : occurrences text ls ≤ occurrences part ls := occurrences_le_of_infix h hne
  omega

theorem occurrences_name (n : String) :
    occurrences (c :: text) (.name n :: ls) = occurrences (c :: text) ls := by
  rw [occurrences, if_neg, Nat.add_zero]
  rw [List.map_cons, List.cons_prefix_cons]
  rintro ⟨hl, -⟩
  exact Lexeme.noConfusion hl

/-- Whether every `a` is followed, and not by `b`. -/
def isQuiet (a b : Char) : List Char → Bool
  | [] => true
  | c :: cs => (c != a || cs.head?.any (· != b)) && isQuiet a b cs

theorem isQuiet_of_not_mem (h : a ∉ cs) : isQuiet a b cs := by
  induction cs with
  | nil => rfl
  | cons c cs ih =>
    simp only [List.mem_cons, not_or] at h
    simp [isQuiet, ih h.2, Ne.symm h.1]

theorem isQuiet_append {cs' : List Char} (h : isQuiet a b cs) (h' : isQuiet a b cs') :
    isQuiet a b (cs ++ cs') := by
  induction cs with
  | nil => exact h'
  | cons c cs ih =>
    simp only [isQuiet, Bool.and_eq_true, Bool.or_eq_true] at h
    rw [List.cons_append, isQuiet, ih h.2, Bool.and_true, Bool.or_eq_true]
    refine h.1.imp_right fun hhead ↦ ?_
    cases cs with
    | nil => simp at hhead
    | cons c' cs => exact hhead

theorem occurrences_quiet (h : isQuiet a b cs) :
    occurrences [a, b] (cs.map .char ++ ls) = occurrences [a, b] ls := by
  induction cs with
  | nil => rfl
  | cons c cs ih =>
    simp only [isQuiet, Bool.and_eq_true, Bool.or_eq_true, bne_iff_ne] at h
    rw [List.map_cons, List.cons_append, occurrences, ih h.2, if_neg, Nat.add_zero]
    intro hstart
    simp only [List.map_cons, List.map_nil, List.cons_prefix_cons, Lexeme.char.injEq] at hstart
    obtain ⟨rfl, hstart⟩ := hstart
    cases cs with
    | nil => simp at h
    | cons c' cs =>
      rw [List.map_cons, List.cons_append, List.cons_prefix_cons, Lexeme.char.injEq] at hstart
      simp [hstart.1] at h

theorem occurrences_between (h : isQuiet a b part) (h' : isQuiet a b (b :: cs)) :
    occurrences [a, b] ((part ++ a :: b :: cs).map .char ++ ls) = occurrences [a, b] ls + 1 := by
  have hpair : (part ++ a :: b :: cs).map .char ++ ls =
      part.map .char ++ .char a :: ((b :: cs).map .char ++ ls) := by
    simp
  rw [hpair, occurrences_quiet h, occurrences, occurrences_quiet h', if_pos]
  simp

end Listing.Lexeme
