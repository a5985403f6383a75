import Mathlib.Data.List.Induction
import Mathlib.Data.List.Nodup

namespace Listing

variable {α β : Type} [BEq α] [LawfulBEq α]

omit [LawfulBEq α] in
/-- Induction along first occurrences: a list without its head's other occurrences is smaller. -/
theorem firsts_induction {motive : List α → Prop} (nil : motive [])
    (cons : ∀ a l, motive (l.filter fun b ↦ !b == a) → motive (a :: l)) (l : List α) :
    motive l := by
  induction h : l.length using Nat.strongRecOn generalizing l with
  | _ n ih =>
    cases l with
    | nil => exact nil
    | cons a l =>
      refine cons a l (ih _ ?_ _ rfl)
      have := List.length_filter_le (fun b ↦ !b == a) l
      simp only [List.length_cons] at h
      omega

theorem nodup_eraseDups (l : List α) : l.eraseDups.Nodup := by
  induction l using firsts_induction with
  | nil => simp
  | cons a l ih =>
    rw [List.eraseDups_cons, List.nodup_cons]
    exact ⟨by simp, ih⟩

theorem eraseDups_eq_self {l : List α} (h : l.Nodup) : l.eraseDups = l := by
  induction l with
  | nil => simp
  | cons a l ih =>
    obtain ⟨ha, hl⟩ := List.nodup_cons.1 h
    have hf : (l.filter fun b ↦ !b == a) = l := by
      refine List.filter_eq_self.2 (fun b hb ↦ ?_)
      have hne : b ≠ a := fun e ↦ ha (e ▸ hb)
      simpa using hne
    rw [List.eraseDups_cons, hf, ih hl]

theorem eraseDups_concat (l : List α) (a : α) [Decidable (a ∈ l)] :
    (l ++ [a]).eraseDups = if a ∈ l then l.eraseDups else l.eraseDups ++ [a] := by
  rw [List.eraseDups_append]
  by_cases ha : a ∈ l <;> simp [List.removeAll, ha, List.eraseDups_cons]

theorem eraseDups_filter (p : α → Bool) (l : List α) :
    (l.filter p).eraseDups = l.eraseDups.filter p := by
  induction l using firsts_induction with
  | nil => simp
  | cons a l ih =>
    rw [List.eraseDups_cons]
    cases hp : p a
    · rw [List.filter_cons_of_neg (by simp [hp]), List.filter_cons_of_neg (by simp [hp]), ← ih,
        List.filter_filter]
      congr 1
      refine List.filter_congr (fun b _ ↦ ?_)
      by_cases hb : b = a
      · simp [hb, hp]
      · simp [hb]
    · rw [List.filter_cons_of_pos hp, List.filter_cons_of_pos hp, List.eraseDups_cons, ← ih,
        List.filter_filter, List.filter_filter]
      simp only [Bool.and_comm]

theorem eraseDups_map [BEq β] [LawfulBEq β] (f : α → β) (l : List α) :
    (l.eraseDups.map f).eraseDups = (l.map f).eraseDups := by
  induction l using firsts_induction with
  | nil => simp
  | cons a l ih =>
    rw [List.eraseDups_cons, List.map_cons, List.map_cons, List.eraseDups_cons, List.eraseDups_cons,
      eraseDups_filter, ih, ← eraseDups_filter]
    congr 1
    rw [List.filter_map, List.filter_map, List.filter_filter]
    congr 2
    refine List.filter_congr (fun b _ ↦ ?_)
    by_cases hb : b = a
    · simp [hb]
    · simp [hb]

theorem perm_eraseDups {l l' : List α} (h : l.Perm l') : l.eraseDups.Perm l'.eraseDups := by
  rw [List.perm_ext_iff_of_nodup (nodup_eraseDups l) (nodup_eraseDups l')]
  intro a
  rw [List.mem_eraseDups, List.mem_eraseDups, h.mem_iff]

theorem eraseDups_map_of_injOn [BEq β] [LawfulBEq β] {f : α → β} {l : List α}
    (hf : ∀ a ∈ l, ∀ b ∈ l, f a = f b → a = b) : (l.map f).eraseDups = l.eraseDups.map f := by
  rw [← eraseDups_map, eraseDups_eq_self]
  refine (nodup_eraseDups l).map_on fun a ha b hb h ↦ ?_
  exact hf a (List.mem_eraseDups.1 ha) b (List.mem_eraseDups.1 hb) h

theorem eraseDups_map_of_injective [BEq β] [LawfulBEq β] {f : α → β} (hf : Function.Injective f)
    (l : List α) : (l.map f).eraseDups = l.eraseDups.map f :=
  eraseDups_map_of_injOn fun _ _ _ _ h ↦ hf h

/-- The blocks of distinct labels hold every element as often as the list does. -/
theorem flatMap_filter_perm {f : β → α} {ks : List α} (hks : ks.Nodup) {l : List β}
    (h : ∀ b ∈ l, f b ∈ ks) : (ks.flatMap fun k ↦ l.filter fun b ↦ f b == k).Perm l := by
  induction ks generalizing l with
  | nil => simp [List.eq_nil_iff_forall_not_mem.2 fun b hb ↦ List.not_mem_nil (h b hb)]
  | cons k ks ih =>
    obtain ⟨hk, hks⟩ := List.nodup_cons.1 hks
    let others := l.filter fun b ↦ !(f b == k)
    have hothers : ∀ b ∈ others, f b ∈ ks := by
      intro b hb
      obtain ⟨hb, hne⟩ := List.mem_filter.1 hb
      exact (List.mem_cons.1 (h b hb)).resolve_left (by simpa using hne)
    have hblocks : ∀ k' ∈ ks, (l.filter fun b ↦ f b == k') = others.filter fun b ↦ f b == k' := by
      intro k' hk'
      rw [List.filter_filter]
      refine List.filter_congr fun b _ ↦ ?_
      by_cases hb : f b = k'
      · have hne : k' ≠ k := fun e ↦ hk (e ▸ hk')
        simp [hb, hne]
      · simp [hb]
    rw [List.flatMap_cons, List.flatMap_congr hblocks]
    exact ((ih hks hothers).append_left _).trans (List.filter_append_perm _ l)

omit [LawfulBEq α] in
theorem head?_eraseDups (l : List α) : l.eraseDups.head? = l.head? := by
  cases l with
  | nil => simp
  | cons a l => simp [List.eraseDups_cons]

theorem eraseDups_append_congr {l l' m m' : List α} (hl : l.eraseDups = l'.eraseDups)
    (hm : m.eraseDups = m'.eraseDups) : (l ++ m).eraseDups = (l' ++ m').eraseDups := by
  have hmem (a : α) : a ∈ l ↔ a ∈ l' := by
    rw [← List.mem_eraseDups, hl, List.mem_eraseDups]
  have hfresh : (fun a ↦ !l.elem a) = fun a ↦ !l'.elem a := by
    funext a
    rw [Bool.eq_iff_iff]
    simp [hmem]
  rw [List.eraseDups_append, List.eraseDups_append, hl, List.removeAll, List.removeAll,
    eraseDups_filter, eraseDups_filter, hm, hfresh]

theorem eraseDups_append_of_subset {l m : List α} (h : ∀ a ∈ m, a ∈ l) :
    (l ++ m).eraseDups = l.eraseDups := by
  have hnone : m.removeAll l = [] := List.filter_eq_nil_iff.2 (by simpa using h)
  rw [List.eraseDups_append, hnone]
  simp

theorem eraseDups_of_same {l : List α} {a : α} (hne : l ≠ []) (h : ∀ b ∈ l, b = a) :
    l.eraseDups = [a] := by
  obtain ⟨b, l, rfl⟩ := List.exists_cons_of_ne_nil hne
  obtain ⟨rfl, hl⟩ := List.forall_mem_cons.1 h
  rw [← List.singleton_append, eraseDups_append_of_subset fun c hc ↦ List.mem_singleton.2 (hl c hc)]
  simp [List.eraseDups_cons]

theorem eraseDups_flatMap_const {l : List β} (hl : l ≠ []) (m : List α) :
    (l.flatMap fun _ ↦ m).eraseDups = m.eraseDups := by
  obtain ⟨b, l, rfl⟩ := List.exists_cons_of_ne_nil hl
  rw [List.flatMap_cons, eraseDups_append_of_subset]
  simp

theorem eraseDups_flatMap_of_blocks {l : List β} {g : β → List α} {f : β → α}
    (hne : ∀ b ∈ l, g b ≠ []) (hg : ∀ b ∈ l, ∀ a ∈ g b, a = f b) :
    (l.flatMap g).eraseDups = (l.map f).eraseDups := by
  induction l with
  | nil => rfl
  | cons b l ih =>
    have hblock : (g b).eraseDups = [f b].eraseDups := by
      rw [eraseDups_of_same (hne b List.mem_cons_self) (hg b List.mem_cons_self)]
      simp [List.eraseDups_cons]
    have hrest := ih (fun c hc ↦ hne c (List.mem_cons_of_mem _ hc))
      fun c hc ↦ hg c (List.mem_cons_of_mem _ hc)
    exact eraseDups_append_congr hblock hrest

omit [BEq α] [LawfulBEq α] in
/-- In an ordered list what occurs first comes before all that is like something later. -/
theorem pairwise_eraseDups_map [BEq β] [LawfulBEq β] {le : α → α → Prop} (f : α → β) {l : List α}
    (h : l.Pairwise le) : (l.map f).eraseDups.Pairwise fun b b' ↦
      ∃ a ∈ l, f a = b ∧ ∀ a' ∈ l, f a' = b' → le a a' := by
  classical
  -- from the end, where the last element is like an earlier one or is new and comes last
  induction l using List.reverseRecOn with
  | nil => simp
  | append_singleton l last ih =>
    obtain ⟨hl, -, hlast⟩ := List.pairwise_append.1 h
    have hlast : ∀ a ∈ l, le a last := fun a ha ↦ hlast a ha last (List.mem_singleton_self last)
    have hearlier : (l.map f).eraseDups.Pairwise fun b b' ↦
        ∃ a ∈ l ++ [last], f a = b ∧ ∀ a' ∈ l ++ [last], f a' = b' → le a a' := by
      refine (ih hl).imp fun {b b'} ⟨a, ha, hb, hle⟩ ↦ ⟨a, List.mem_append_left _ ha, hb, ?_⟩
      intro a' ha' hb'
      rcases List.mem_append.1 ha' with ha' | ha'
      · exact hle a' ha' hb'
      · exact List.mem_singleton.1 ha' ▸ hlast a ha
    rw [List.map_append, List.map_singleton, eraseDups_concat]
    by_cases hnew : f last ∈ l.map f
    · rw [if_pos hnew]
      exact hearlier
    · rw [if_neg hnew]
      refine List.pairwise_append.2 ⟨hearlier, List.pairwise_singleton _ _, fun b hb b' hb' ↦ ?_⟩
      obtain rfl := List.mem_singleton.1 hb'
      obtain ⟨a, ha, rfl⟩ := List.mem_map.1 (List.mem_eraseDups.1 hb)
      refine ⟨a, List.mem_append_left _ ha, rfl, fun a' ha' hb' ↦ ?_⟩
      rcases List.mem_append.1 ha' with ha' | ha'
      · exact absurd (hb' ▸ List.mem_map_of_mem ha') hnew
      · exact List.mem_singleton.1 ha' ▸ hlast a ha

end Listing
