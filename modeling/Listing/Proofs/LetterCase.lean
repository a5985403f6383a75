import Listing.Error
import Mathlib.Data.List.Infix

namespace Listing

namespace Text

theorem occursIn_iff {part cs : List Char} : occursIn part cs ↔ part <:+: cs := by
  induction cs with
  | nil => simp [occursIn]
  | cons c cs ih =>
    rw [occursIn, Bool.or_eq_true, List.isPrefixOf_iff_prefix, ih, List.infix_cons_iff]

theorem CaseRun.lower?_eq_some {r : CaseRun} {n : Nat} {x : Char} (h : r.lower? n = some x) :
    r.first ≤ n ∧ n ≤ r.last ∧ x = Char.ofNat ((n : Int) + r.offset).toNat := by
  obtain ⟨⟨hfirst, hlast, -⟩, h⟩ := Option.ite_none_right_eq_some.1 h
  exact ⟨hfirst, hlast, (Option.some.inj h).symm⟩

theorem toLower_of_not_capital {c : Char} (h : ¬(65 ≤ c.toNat ∧ c.toNat ≤ 90)) : c.toLower = c :=
  dif_neg h

theorem lowerChar_of_ascii {c : Char} (h : c.toNat < 128) : lowerChar c = [c.toLower] := by
  by_cases hcapital : 65 ≤ c.toNat ∧ c.toNat ≤ 90
  · have hall : ∀ n : Fin 26,
        lowerChar (Char.ofNat (65 + n)) = [(Char.ofNat (65 + n)).toLower] := by
      decide +kernel
    simpa [Nat.add_sub_cancel' hcapital.1] using hall ⟨c.toNat - 65, by omega⟩
  · have hnone : lowerRuns.findSome? (·.lower? c.toNat) = none := by
      have hruns : ∀ r ∈ lowerRuns, (r.first = 65 ∧ r.last = 90) ∨ 128 ≤ r.first := by
        decide +kernel
      refine List.findSome?_eq_none_iff.2 fun r hr ↦ ?_
      rw [CaseRun.lower?, if_neg]
      rintro ⟨hfirst, hlast, -⟩
      rcases hruns r hr with hrun | hrun <;> omega
    rw [lowerChar, if_neg (by omega), hnone, toLower_of_not_capital hcapital]
    rfl

def dottedI : Char := '\u0130'

/-- Of the characters beyond ASCII only the sign for Kelvin becomes a letter of ASCII. -/
theorem lowerChar_of_not_ascii {c : Char} (h : 128 ≤ c.toNat) (hc : c ≠ dottedI) :
    ∃ x, lowerChar c = [x] ∧ (128 ≤ x.toNat ∨ x = 'k') := by
  have hdotted : c.toNat ≠ 0x130 := fun he ↦ hc (Char.toNat_inj.1 he)
  -- a run stays within ASCII, or is that of the sign for Kelvin, or leads beyond ASCII
  have hruns : ∀ r ∈ lowerRuns, r.last < 128 ∨
      (r.first = 0x212A ∧ r.last = 0x212A ∧ r.offset = -8383) ∨
      (128 ≤ r.first + r.offset ∧
        (r.last + r.offset < 0xD800 ∨
          0xE000 ≤ r.first + r.offset ∧ r.last + r.offset < 0x110000)) := by
    decide +kernel
  rw [lowerChar, if_neg hdotted]
  refine ⟨_, rfl, ?_⟩
  cases hrun : lowerRuns.findSome? (·.lower? c.toNat) with
  | none => exact .inl h
  | some x =>
    obtain ⟨r, hr, hlower⟩ := List.exists_of_findSome?_eq_some hrun
    obtain ⟨hfirst, hlast, rfl⟩ := CaseRun.lower?_eq_some hlower
    rcases hruns r hr with hascii | ⟨hlow, hhigh, hoffset⟩ | ⟨hlow, hvalid⟩
    · omega
    · right
      have hn : c.toNat = 0x212A := by omega
      simp only [Option.getD_some, hn, hoffset]
      decide
    · left
      have hchar : ((c.toNat : Int) + r.offset).toNat.isValidChar := by
        simp only [Nat.isValidChar]
        omega
      have hnat : (Char.ofNat ((c.toNat : Int) + r.offset).toNat).toNat =
          ((c.toNat : Int) + r.offset).toNat := by
        rw [Char.ofNat, dif_pos hchar]
        rfl
      rw [Option.getD_some, hnat]
      omega

/-- A letter of the words that are looked for: it comes from its own two forms alone. -/
def IsPlain (w : Char) : Prop := w.toNat < 128 ∧ w ≠ 'k'

instance (w : Char) : Decidable (IsPlain w) := inferInstanceAs (Decidable (_ ∧ _))

theorem lowerChar_of_ne_dottedI {c w : Char} (hc : c ≠ dottedI) (hw : IsPlain w) :
    ∃ x, lowerChar c = [x] ∧ (w = x ↔ c.toLower = w) := by
  by_cases hascii : c.toNat < 128
  · exact ⟨c.toLower, lowerChar_of_ascii hascii, eq_comm⟩
  · have hbeyond : 128 ≤ c.toNat := by omega
    obtain ⟨x, hx, hletter⟩ := lowerChar_of_not_ascii hbeyond hc
    refine ⟨x, hx, ?_⟩
    rw [toLower_of_not_capital (c := c) (by omega)]
    constructor
    · rintro rfl
      rcases hletter with hletter | rfl
      · exact absurd hw.1 (by omega)
      · exact absurd rfl hw.2
    · rintro rfl
      exact absurd hw.1 hascii

/-- A word whose letters are plain. A capital I with a dot gives no `i` that ends it. -/
structure IsPlainWord (word : List Char) : Prop where
  plain : ∀ w ∈ word, IsPlain w
  last : word.getLast? ≠ some 'i'

theorem IsPlainWord.tail {w : Char} {word : List Char} (h : IsPlainWord (w :: word)) :
    IsPlainWord word where
  plain v hv := h.plain v (List.mem_cons_of_mem _ hv)
  last hlast := by
    cases word with
    | nil => simp at hlast
    | cons v word => exact h.last (by rwa [List.getLast?_cons_cons])

theorem IsPlainWord.not_prefix_dottedI {w : Char} {word cs : List Char}
    (h : IsPlainWord (w :: word)) : ¬(w :: word) <+: (dottedI :: cs).flatMap lowerChar := by
  have hlower : (dottedI :: cs).flatMap lowerChar = 'i' :: '\u0307' :: cs.flatMap lowerChar := rfl
  rw [hlower, List.cons_prefix_cons]
  rintro ⟨rfl, hword⟩
  cases word with
  | nil => exact h.last rfl
  | cons v word =>
    obtain ⟨rfl, -⟩ := List.cons_prefix_cons.1 hword
    exact absurd (h.plain '\u0307' (by simp)).1 (by decide)

theorem toLower_dottedI_ne {w : Char} (h : IsPlain w) : dottedI.toLower ≠ w := by
  rintro rfl
  exact absurd h.1 (by decide)

theorem prefix_lower_iff {word cs : List Char} (h : IsPlainWord word) :
    word <+: cs.flatMap lowerChar ↔ ∃ part, part <+: cs ∧ part.map Char.toLower = word := by
  induction word generalizing cs with
  | nil => exact iff_of_true List.nil_prefix ⟨[], List.nil_prefix, rfl⟩
  | cons w word ih =>
    have hw := h.plain w List.mem_cons_self
    cases cs with
    | nil => simp
    | cons c cs =>
      by_cases hc : c = dottedI
      · subst hc
        refine iff_of_false h.not_prefix_dottedI ?_
        rintro ⟨part, hpart, hmap⟩
        obtain ⟨d, part, rfl, hlower, -⟩ := List.map_eq_cons_iff.1 hmap
        obtain ⟨rfl, -⟩ := List.cons_prefix_cons.1 hpart
        exact toLower_dottedI_ne hw hlower
      · obtain ⟨x, hx, hletter⟩ := lowerChar_of_ne_dottedI hc hw
        rw [List.flatMap_cons, hx, List.singleton_append, List.cons_prefix_cons, hletter, ih h.tail]
        constructor
        · rintro ⟨hlower, part, hpart, rfl⟩
          exact ⟨c :: part, List.cons_prefix_cons.2 ⟨rfl, hpart⟩, by rw [List.map_cons, hlower]⟩
        · rintro ⟨part, hpart, hmap⟩
          obtain ⟨d, part, rfl, hlower, hmap⟩ := List.map_eq_cons_iff.1 hmap
          obtain ⟨rfl, htail⟩ := List.cons_prefix_cons.1 hpart
          exact ⟨hlower, part, htail, hmap⟩

theorem infix_lower_iff {w : Char} {word cs : List Char} (h : IsPlainWord (w :: word)) :
    (w :: word) <:+: cs.flatMap lowerChar ↔
      ∃ part, part <:+: cs ∧ part.map Char.toLower = w :: word := by
  induction cs with
  | nil => simp
  | cons c cs ih =>
    have hparts : (∃ part, part <:+: c :: cs ∧ part.map Char.toLower = w :: word) ↔
        (w :: word) <+: (c :: cs).flatMap lowerChar ∨ (w :: word) <:+: cs.flatMap lowerChar := by
      rw [prefix_lower_iff h, ih]
      simp only [List.infix_cons_iff, or_and_right, exists_or]
    rw [hparts]
    by_cases hc : c = dottedI
    · subst hc
      have hlower :
          (dottedI :: cs).flatMap lowerChar = 'i' :: '\u0307' :: cs.flatMap lowerChar := rfl
      have hdot : ¬(w :: word) <+: '\u0307' :: cs.flatMap lowerChar := by
        rw [List.cons_prefix_cons]
        rintro ⟨rfl, -⟩
        exact absurd (h.plain _ List.mem_cons_self).1 (by decide)
      rw [hlower, List.infix_cons_iff, List.infix_cons_iff, or_iff_right hdot]
    · obtain ⟨x, hx, -⟩ := lowerChar_of_ne_dottedI hc (h.plain w List.mem_cons_self)
      rw [List.flatMap_cons, hx, List.singleton_append, List.infix_cons_iff]

end Text

/-- The message holds the word with each letter small or capital. -/
def Mentions (message word : String) : Prop :=
  ∃ part, part <:+: message.toList ∧ part.map Char.toLower = word.toList

theorem QueryError.mentionsShape_iff {message : String} : mentionsShape message ↔
    ∃ word ∈ ["join", "alias", "column", "relation"], Mentions message word := by
  have hwords : ∀ word ∈ shapeWords, Text.IsPlainWord word.toList ∧ word.toList ≠ [] := by
    have hall : ∀ word ∈ shapeWords, word.toList.all (Text.IsPlain ·) ∧
        word.toList.getLast? ≠ some 'i' ∧ word.toList ≠ [] := by decide +kernel
    intro word hword
    obtain ⟨hplain, hlast, hne⟩ := hall word hword
    exact ⟨⟨by simpa using hplain, hlast⟩, hne⟩
  rw [mentionsShape, List.any_eq_true]
  refine exists_congr fun word ↦ and_congr_right fun hword ↦ ?_
  obtain ⟨hplain, hne⟩ := hwords word hword
  obtain ⟨w, rest, hword⟩ := List.exists_cons_of_ne_nil hne
  rw [Text.occursIn_iff, Text.lower, String.toList_ofList, Mentions, hword]
  exact Text.infix_lower_iff (hword ▸ hplain)

end Listing
