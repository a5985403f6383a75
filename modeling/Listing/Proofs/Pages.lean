import Listing.Options.Basic
import Mathlib.Logic.ExistsUnique

namespace Listing

open Number

namespace Window

/-- The indices from `skip` on, up to an end that is a word as well. -/
def Holds (w : Window) (i : Nat) : Prop := w.skip ≤ i ∧ i < min (w.skip + w.take) maxWord

def cut {α : Type} (w : Window) (rows : List α) : List α := (rows.drop w.skip).take w.take

variable {page limit total i : Nat}

/-- An offset that stays at the largest word is beyond every index. -/
theorem skip_ofPage_le_iff (hi : i < maxWord) :
    (ofPage page limit).skip ≤ i ↔ (page - 1) * limit ≤ i := by
  simp only [ofPage]
  omega

theorem holds_ofPage_iff (hi : i < maxWord) :
    (ofPage page limit).Holds i ↔ (page - 1) * limit ≤ i ∧ i < (page - 1 + 1) * limit := by
  rw [Holds, skip_ofPage_le_iff hi, Nat.succ_mul]
  apply and_congr_right
  intro hskip
  simp only [ofPage]
  omega

/-- Of the pages from the first on, one holds an index. -/
theorem holds_ofPage_iff_eq (hlimit : 0 < limit) (hpage : 1 ≤ page) (hi : i < maxWord) :
    (ofPage page limit).Holds i ↔ page = i / limit + 1 := by
  have hdiv : i / limit = page - 1 ↔ (page - 1) * limit ≤ i ∧ i < (page - 1 + 1) * limit := by
    rw [Nat.div_eq_iff hlimit, Nat.add_mul, Nat.one_mul]
    omega
  rw [holds_ofPage_iff hi, ← hdiv]
  omega

theorem lt_pagesFor_iff (hlimit : 0 < limit) :
    page < pagesFor limit total ↔ page * limit < total := by
  rw [pagesFor, if_neg (Nat.pos_iff_ne_zero.1 hlimit), Nat.lt_iff_add_one_le,
    Nat.le_div_iff_mul_le hlimit, Nat.succ_mul]
  omega

theorem flatMap_cut {α : Type} {rows : List α} (hrows : rows.length ≤ maxWord) (limit pages : Nat) :
    (List.range' 1 pages).flatMap (fun p ↦ (ofPage p limit).cut rows) =
      rows.take (pages * limit) := by
  induction pages with
  | zero => simp
  | succ n ih =>
    have hcut : (ofPage (1 + n) limit).cut rows = (rows.drop (n * limit)).take limit := by
      have hdrop : rows.drop (min (n * limit) maxWord) = rows.drop (n * limit) := by
        rcases Nat.le_total (n * limit) maxWord with h | h
        · rw [Nat.min_eq_left h]
        · rw [List.drop_of_length_le (by omega), List.drop_of_length_le (by omega)]
      simp only [ofPage, cut, Nat.add_sub_cancel_left]
      rw [hdrop]
    rw [List.range'_1_concat, List.flatMap_append, ih, List.flatMap_singleton, hcut, Nat.succ_mul,
      List.take_add]

/-- All pages in order have all rows in order. -/
theorem flatMap_cut_pagesFor {α : Type} {rows : List α} (hrows : rows.length ≤ maxWord)
    (hlimit : 0 < limit) :
    (List.range' 1 (pagesFor limit rows.length)).flatMap (fun p ↦ (ofPage p limit).cut rows) =
      rows := by
  have hall : rows.length ≤ pagesFor limit rows.length * limit := by
    apply Nat.le_of_not_lt
    intro hless
    exact Nat.lt_irrefl _ ((lt_pagesFor_iff hlimit).2 hless)
  rw [flatMap_cut hrows, List.take_of_length_le hall]

theorem div_lt_pagesFor (hlimit : 0 < limit) (hi : i < total) :
    i / limit < pagesFor limit total := by
  rw [lt_pagesFor_iff hlimit]
  exact Nat.lt_of_le_of_lt (Nat.div_mul_le_self i limit) hi

theorem existsUnique_page (hlimit : 0 < limit) (hi : i < total) (htotal : total ≤ maxWord) :
    ∃! p, (1 ≤ p ∧ p ≤ pagesFor limit total) ∧ (ofPage p limit).Holds i := by
  have hword : i < maxWord := Nat.lt_of_lt_of_le hi htotal
  refine ⟨i / limit + 1, ⟨⟨Nat.le_add_left 1 _, div_lt_pagesFor hlimit hi⟩, ?_⟩, ?_⟩
  · exact (holds_ofPage_iff_eq hlimit (Nat.le_add_left 1 _) hword).2 rfl
  · intro p hp
    exact (holds_ofPage_iff_eq hlimit hp.1.1 hword).1 hp.2

theorem not_holds_of_pagesFor_lt (hlimit : 0 < limit) (hi : i < total) (htotal : total ≤ maxWord)
    (hpage : pagesFor limit total < page) : ¬(ofPage page limit).Holds i := by
  intro hholds
  have hword : i < maxWord := Nat.lt_of_lt_of_le hi htotal
  have heq := (holds_ofPage_iff_eq hlimit (Nat.one_le_of_lt hpage) hword).1 hholds
  have hdiv := div_lt_pagesFor hlimit hi
  omega

theorem hasNext_iff (hlimit : 0 < limit) :
    (PageMeta.of page limit total).hasNext = true ↔ ∃ i < total, page * limit ≤ i := by
  have hnext : (PageMeta.of page limit total).hasNext = true ↔ page < pagesFor limit total :=
    decide_eq_true_iff
  rw [hnext, lt_pagesFor_iff hlimit]
  constructor
  · intro h
    exact ⟨page * limit, h, Nat.le_refl _⟩
  · rintro ⟨i, hi, hle⟩
    exact Nat.lt_of_le_of_lt hle hi

/-- Every record is on one of the pages that are told of, and on no later one, and all these pages
in order are the records in order. A page is told to have a next one exactly if there are records
behind it. -/
theorem pages_partition (hlimit : 1 ≤ limit ∧ limit ≤ maxLimit) (htotal : total ≤ maxWord) :
    (∀ page, ∀ i < total,
      (∃! p, (1 ≤ p ∧ p ≤ (PageMeta.of page limit total).totalPages) ∧
        (ofPage p limit).Holds i) ∧
      ∀ p, (PageMeta.of page limit total).totalPages < p → p ≤ maxWord →
        ¬(ofPage p limit).Holds i) ∧
    (∀ (α : Type) (rows : List α), rows.length = total → ∀ page,
      (List.range' 1 (PageMeta.of page limit total).totalPages).flatMap
        (fun p ↦ (ofPage p limit).cut rows) = rows) ∧
    ∀ p, 1 ≤ p → p ≤ maxWord →
      ((PageMeta.of p limit total).hasNext = true ↔ ∃ i < total, p * limit ≤ i) := by
  refine ⟨?_, ?_, ?_⟩
  · intro page i hi
    refine ⟨existsUnique_page hlimit.1 hi htotal, ?_⟩
    intro p hlater _
    exact not_holds_of_pagesFor_lt hlimit.1 hi htotal hlater
  · rintro α rows rfl _
    exact flatMap_cut_pagesFor htotal hlimit.1
  · intro p _ _
    exact hasNext_iff hlimit.1

/-- As many records as a word can count: the last one is on the last page, the largest page number
has none, and no page is told to follow it. -/
theorem pages_partition_maxWord : (1 ≤ maxLimit ∧ maxLimit ≤ maxLimit) ∧ maxWord ≤ maxWord ∧
    (∃! p, (1 ≤ p ∧ p ≤ 184467440737095517) ∧ (ofPage p maxLimit).Holds (maxWord - 1)) ∧
    ¬(ofPage maxWord maxLimit).Holds (maxWord - 1) ∧
    ¬∃ i < maxWord, maxWord * maxLimit ≤ i := by
  have hlimit : 1 ≤ maxLimit ∧ maxLimit ≤ maxLimit := by decide
  obtain ⟨hpage, -, hnext⟩ := pages_partition hlimit (Nat.le_refl maxWord)
  obtain ⟨hone, hlater⟩ := hpage 1 (maxWord - 1) (by decide)
  refine ⟨hlimit, Nat.le_refl _, hone, hlater maxWord (by decide) (Nat.le_refl _), ?_⟩
  rw [← hnext maxWord (by decide) (Nat.le_refl _)]
  decide

end Window

end Listing
