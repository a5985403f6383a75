import Listing.Proofs.Firsts
import Listing.Proofs.Keyed
import Listing.Record
import Mathlib.Data.List.Induction

namespace Listing.Groups

/-- The text that rows of one group share. -/
def keyText (key : List String) (row : Row) : String := Json.render (.list (keyValues key row))

def isGrouped (key : List String) (skipNull : Bool) (row : Row) : Bool :=
  !(skipNull && (keyValues key row).all Datum.isNull)

def byText (key : List String) (rows : List Row) : Groups :=
  (rows.map (keyText key)).eraseDups.map fun k ↦ (k, rows.filter fun row ↦ keyText key row == k)

theorem add_byText (key : List String) (rows : List Row) (row : Row) :
    (byText key rows).add (keyText key row) row = byText key (rows ++ [row]) := by
  have hfilter : ∀ k, (rows ++ [row]).filter (fun r ↦ keyText key r == k) =
      if k = keyText key row then rows.filter (fun r ↦ keyText key r == k) ++ [row]
      else rows.filter (fun r ↦ keyText key r == k) := by
    intro k
    by_cases hk : k = keyText key row
    · simp [List.filter_append, hk]
    · simp [List.filter_append, hk, Ne.symm hk]
  rw [byText, add, Keyed.get?_map, byText, List.map_append, List.map_singleton, eraseDups_concat]
  simp only [List.mem_eraseDups]
  by_cases hmem : keyText key row ∈ rows.map (keyText key)
  · rw [if_pos hmem, if_pos hmem, Keyed.put_map (nodup_eraseDups _) (List.mem_eraseDups.2 hmem)]
    refine List.map_congr_left fun k _ ↦ ?_
    rw [hfilter]
    by_cases hk : k = keyText key row
    · simp [hk]
    · simp [hk]
  · have hnew : keyText key row ∉
        Keyed.keys ((rows.map (keyText key)).eraseDups.map fun k ↦
          (k, rows.filter fun r ↦ keyText key r == k)) := by
      simpa [Keyed.keys] using hmem
    rw [if_neg hmem, if_neg hmem, Keyed.put_of_not_mem hnew, List.map_append, List.map_singleton]
    congr 1
    · refine List.map_congr_left fun k hk ↦ ?_
      have hne : k ≠ keyText key row := fun e ↦ hmem (e ▸ List.mem_eraseDups.1 hk)
      rw [hfilter, if_neg hne]
    · have hnone : rows.filter (fun r ↦ keyText key r == keyText key row) = [] := by
        refine List.filter_eq_nil_iff.2 fun r hr he ↦ hmem ?_
        exact List.mem_map.2 ⟨r, hr, by simpa using he⟩
      rw [hfilter, if_pos rfl, hnone]
      rfl

theorem ofRows_eq (key : List String) (skipNull : Bool) (rows : List Row) :
    ofRows key skipNull rows = byText key (rows.filter (isGrouped key skipNull)) := by
  induction rows using List.reverseRecOn with
  | nil => rfl
  | append_singleton rows row ih =>
    rw [List.filter_append, ofRows, List.foldl_append]
    rw [ofRows] at ih
    rw [ih, List.foldl_cons, List.foldl_nil]
    by_cases hrow : isGrouped key skipNull row
    · have hskip : (skipNull && (keyValues key row).all Datum.isNull) = false := by
        simpa only [isGrouped, Bool.not_eq_true'] using hrow
      rw [List.filter_cons_of_pos hrow, List.filter_nil, ← add_byText]
      simp only [hskip]
      rfl
    · have hskip : (skipNull && (keyValues key row).all Datum.isNull) = true := by
        simpa only [isGrouped, Bool.not_eq_true', Bool.not_eq_false] using hrow
      rw [List.filter_cons_of_neg hrow, List.filter_nil, List.append_nil]
      simp only [hskip]
      rfl

theorem toLists_ofRows (key : List String) (skipNull : Bool) (rows : List Row) :
    (ofRows key skipNull rows).toLists =
      ((rows.filter (isGrouped key skipNull)).map (keyText key)).eraseDups.map fun k ↦
        (rows.filter (isGrouped key skipNull)).filter fun row ↦ keyText key row == k := by
  rw [ofRows_eq, byText, toLists, List.map_map]
  rfl

theorem filter_flatMap_block {α β γ : Type} [BEq γ] [LawfulBEq γ] {is : List α}
    {block : α → List β} {label : α → γ} {labelOf : β → γ}
    (hblock : ∀ i ∈ is, ∀ b ∈ block i, labelOf b = label i) (hlabel : (is.map label).Nodup) :
    ∀ i ∈ is, (is.flatMap block).filter (fun b ↦ labelOf b == label i) = block i := by
  induction is with
  | nil => simp
  | cons i is ih =>
    obtain ⟨hnot, hnodup⟩ := List.nodup_cons.1 hlabel
    have hself : (block i).filter (fun b ↦ labelOf b == label i) = block i :=
      List.filter_eq_self.2 fun b hb ↦ by simp [hblock i List.mem_cons_self b hb]
    have hne : ∀ j ∈ is, label j ≠ label i := fun j hj he ↦ hnot (he ▸ List.mem_map_of_mem hj)
    rintro j hj
    rw [List.flatMap_cons, List.filter_append]
    rcases List.mem_cons.1 hj with rfl | hj
    · have hrest : (is.flatMap block).filter (fun b ↦ labelOf b == label j) = [] := by
        refine List.filter_eq_nil_iff.2 fun b hb ↦ ?_
        obtain ⟨k, hk, hb⟩ := List.mem_flatMap.1 hb
        simp [hblock k (List.mem_cons_of_mem _ hk) b hb, hne k hk]
      rw [hself, hrest, List.append_nil]
    · have hfirst : (block i).filter (fun b ↦ labelOf b == label j) = [] := by
        refine List.filter_eq_nil_iff.2 fun b hb ↦ ?_
        simp [hblock i List.mem_cons_self b hb, Ne.symm (hne j hj)]
      rw [hfirst, List.nil_append, ih (fun k hk ↦ hblock k (List.mem_cons_of_mem _ hk)) hnodup j hj]

/-- Rows that come block by block, the blocks with different keys, are grouped into these blocks. -/
theorem toLists_ofRows_flatMap {α : Type} {is : List α} {rows : α → List Row} {text : α → String}
    {key : List String} {skipNull : Bool} (hne : ∀ i ∈ is, rows i ≠ [])
    (hrows : ∀ i ∈ is, ∀ row ∈ rows i, isGrouped key skipNull row ∧ keyText key row = text i)
    (htext : (is.map text).Nodup) :
    (ofRows key skipNull (is.flatMap rows)).toLists = is.map rows := by
  have hblock : ∀ i ∈ is, ∀ row ∈ rows i, keyText key row = text i :=
    fun i hi row hrow ↦ (hrows i hi row hrow).2
  have hgrouped : (is.flatMap rows).filter (isGrouped key skipNull) = is.flatMap rows := by
    refine List.filter_eq_self.2 fun row hrow ↦ ?_
    obtain ⟨i, hi, hrow⟩ := List.mem_flatMap.1 hrow
    exact (hrows i hi row hrow).1
  have hkeys : ((is.flatMap rows).map (keyText key)).eraseDups = is.map text := by
    rw [List.map_flatMap, eraseDups_flatMap_of_blocks (f := text), eraseDups_eq_self htext]
    · simpa using hne
    · intro i hi k hk
      obtain ⟨row, hrow, rfl⟩ := List.mem_map.1 hk
      exact hblock i hi row hrow
  rw [toLists_ofRows, hgrouped, hkeys, List.map_map]
  exact List.map_congr_left fun i hi ↦ filter_flatMap_block hblock htext i hi

end Listing.Groups
