import Listing.Number.Reading
import Listing.Proofs.NumberText
import Mathlib.Data.Nat.Digits.Defs

namespace Listing.Number

def EndsDigits (r : List Char) : Prop := ∀ c ∈ r.head?, isDigit c = false

theorem digit_range {c : Char} (h : isDigit c) : 48 ≤ c.toNat ∧ c.toNat ≤ 57 := by
  simp only [isDigit, Bool.and_eq_true, decide_eq_true_eq] at h
  exact h

theorem isDigit_of_mem_toDigits {n : Nat} {c : Char} (h : c ∈ Nat.toDigits 10 n) : isDigit c :=
  Nat.isDigit_of_mem_toDigits (by decide) (by decide) h

theorem digitsValue_toDigits (n : Nat) : digitsValue (Nat.toDigits 10 n) = n :=
  Nat.ofDigitChars_toDigits (by decide) (by decide)

theorem digitsValue_zeros (k : Nat) (ds : List Char) :
    digitsValue (List.replicate k '0' ++ ds) = digitsValue ds := by
  induction k with
  | zero => rfl
  | succ k ih =>
    rw [List.replicate_succ, List.cons_append, ← ih]
    rfl

def digitsValueFrom (n : Nat) (cs : List Char) : Nat := cs.foldl (fun n c ↦ 10 * n + digitValue c) n

theorem le_digitsValueFrom (n : Nat) (cs : List Char) : n ≤ digitsValueFrom n cs := by
  induction cs generalizing n with
  | nil => exact Nat.le_refl n
  | cons c cs ih =>
    have hnext : 10 * n + digitValue c ≤ digitsValueFrom n (c :: cs) := ih _
    omega

/-- Digits fail as a whole as soon as their value is past the bound somewhere on the way. -/
theorem readDigits_eq {most n : Nat} {past : IntegerProblem} {cs : List Char}
    (hcs : ∀ c ∈ cs, isDigit c) (hn : n ≤ most) : readDigits most past n cs =
      if digitsValueFrom n cs ≤ most then .ok (digitsValueFrom n cs) else .error past := by
  induction cs generalizing n with
  | nil => rw [readDigits, digitsValueFrom, List.foldl_nil, if_pos hn]
  | cons c cs ih =>
    obtain ⟨hc, hcs⟩ := List.forall_mem_cons.1 hcs
    have hvalue : digitsValueFrom n (c :: cs) = digitsValueFrom (10 * n + digitValue c) cs := rfl
    rw [readDigits, hc, Bool.not_true, hvalue]
    by_cases hnext : most < 10 * n + digitValue c
    · have hle := le_digitsValueFrom (10 * n + digitValue c) cs
      rw [if_neg (by simp), if_pos hnext, if_neg (by omega)]
    · rw [if_neg (by simp), if_neg hnext, ih hcs (by omega)]

theorem readDigits_toDigits (most n : Nat) (past : IntegerProblem) :
    readDigits most past 0 (Nat.toDigits 10 n) = if n ≤ most then .ok n else .error past := by
  have hvalue : digitsValueFrom 0 (Nat.toDigits 10 n) = n := digitsValue_toDigits n
  rw [readDigits_eq (fun _ hc ↦ isDigit_of_mem_toDigits hc) (Nat.zero_le most), hvalue]

variable {low high : Int} {cs : List Char}

theorem readInt_minus (hlow : low < 0) (hcs : cs ≠ []) : readInt low high ('-' :: cs) =
    (readDigits low.natAbs .tooSmall 0 cs).map fun n ↦ -(n : Int) := by
  rw [readInt]
  · exact if_pos hlow
  · exact hcs

theorem readInt_unsigned (hcs : cs ≠ []) (hsign : ∀ c ∈ cs.head?, isDigit c) :
    readInt low high cs = (readDigits high.toNat .tooLarge 0 cs).map fun n ↦ (n : Int) := by
  have hplain : ∀ c ∈ cs.head?, c ≠ '-' ∧ c ≠ '+' := by
    rintro c hc
    constructor <;> rintro rfl <;> exact absurd (hsign _ hc) (by decide)
  rw [readInt]
  · exact hcs
  · rintro rfl
    exact (hplain '-' rfl).1 rfl
  · rintro rfl
    exact (hplain '+' rfl).2 rfl
  · rintro rest rfl
    exact (hplain '-' rfl).1 rfl
  · rintro rest rfl
    exact (hplain '+' rfl).2 rfl

/-- An integer is read from its text, or refused at the end of the range that it is past. -/
theorem readInt_toString (hlow : low < 0) (hhigh : 0 ≤ high) (i : Int) :
    readInt low high (toString i).toList =
      if i < low then .error .tooSmall else if high < i then .error .tooLarge else .ok i := by
  rw [toList_toString]
  by_cases hi : i < 0
  · have hnotlarge : ¬high < i := by omega
    have hback : -(i.natAbs : Int) = i := by omega
    rw [if_pos hi, readInt_minus hlow Nat.toDigits_ne_nil, readDigits_toDigits, if_neg hnotlarge]
    by_cases hsmall : i < low
    · have hpast : ¬i.natAbs ≤ low.natAbs := by omega
      rw [if_pos hsmall, if_neg hpast]
      rfl
    · have hwithin : i.natAbs ≤ low.natAbs := by omega
      rw [if_neg hsmall, if_pos hwithin]
      exact congrArg Except.ok hback
  · have hnotsmall : ¬i < low := by omega
    have hback : (i.natAbs : Int) = i := by omega
    have hdigit : ∀ c ∈ (Nat.toDigits 10 i.natAbs).head?, isDigit c :=
      fun c hc ↦ isDigit_of_mem_toDigits (List.mem_of_mem_head? hc)
    rw [if_neg hi, readInt_unsigned Nat.toDigits_ne_nil hdigit, readDigits_toDigits,
      if_neg hnotsmall]
    by_cases hlarge : high < i
    · have hpast : ¬i.natAbs ≤ high.toNat := by omega
      rw [if_pos hlarge, if_neg hpast]
      rfl
    · have hwithin : i.natAbs ≤ high.toNat := by omega
      rw [if_neg hlarge, if_pos hwithin]
      exact congrArg Except.ok hback

end Listing.Number
