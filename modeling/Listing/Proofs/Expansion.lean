import Listing.Proofs.Coverage
import Listing.Proofs.Resolution

namespace Listing.Path

/-- The whole of `p`, or what stands before one of its dots. -/
def IsAncestor (a p : Path) : Prop := p = a ∨ (a ++ ".").toList <+: p.toList

/-- Some declared path is `p` or goes on from it. -/
def IsOnTheWay (p : Path) (declared : List Path) : Prop := ∃ d ∈ declared, IsAncestor p d

/-- The declared paths, taken in order, come by `p` before they come by `q`. -/
def OccursBefore (declared : List Path) (p q : Path) : Prop :=
  ∃ initial, initial <+: declared ∧ IsOnTheWay p initial ∧ ¬ IsOnTheWay q initial

structure IsExpansion (declared paths : List Path) : Prop where
  distinct : paths.Nodup
  members : ∀ p, p ∈ paths ↔ IsOnTheWay p declared
  parents : ∀ before p behind, paths = before ++ p :: behind → ∀ q, p.parent? = some q → q ∈ before
  ascending : paths.Pairwise fun p q ↦ p.depth ≤ q.depth
  firsts : paths.Pairwise fun p q ↦ p.depth = q.depth → OccursBefore declared p q

variable {declared paths : List Path} {p q : Path}

theorem isOnTheWay_iff : IsOnTheWay p declared ↔ p ∈ declared.flatMap ancestors := by
  simp only [IsOnTheWay, IsAncestor, ← passes_iff_text, List.mem_flatMap, mem_ancestors]

theorem isOnTheWay_mono (h : IsOnTheWay p paths) (hsubset : paths ⊆ declared) :
    IsOnTheWay p declared := by
  obtain ⟨d, hd, hp⟩ := h
  exact ⟨d, hsubset hd, hp⟩

theorem OccursBefore.append (h : OccursBefore declared p q) (more : List Path) :
    OccursBefore (declared ++ more) p q := by
  obtain ⟨initial, hinitial, hp, hq⟩ := h
  exact ⟨initial, hinitial.trans (List.prefix_append _ _), hp, hq⟩

theorem OccursBefore.asymm (h : OccursBefore declared p q) : ¬ OccursBefore declared q p := by
  intro h'
  obtain ⟨initial, hinitial, hp, hq⟩ := h
  obtain ⟨initial', hinitial', hq', hp'⟩ := h'
  rcases List.prefix_or_prefix_of_prefix hinitial hinitial' with hle | hle
  · exact hp' (isOnTheWay_mono hp hle.subset)
  · exact hq (isOnTheWay_mono hq' hle.subset)

theorem pairwise_occursBefore (declared : List Path) :
    (declared.flatMap ancestors).eraseDups.Pairwise fun p q ↦
      p.depth = q.depth → OccursBefore declared p q := by
  -- from the end: what the last path adds is new, and no two of it are equally deep
  induction declared using List.reverseRecOn with
  | nil => simp
  | append_singleton declared d ih =>
    have hnew : ∀ q ∈ (d.ancestors.removeAll (declared.flatMap ancestors)).eraseDups,
        d.passes q ∧ ¬ IsOnTheWay q declared := by
      intro q hq
      rw [List.mem_eraseDups, List.removeAll, List.mem_filter] at hq
      rw [isOnTheWay_iff]
      exact ⟨mem_ancestors.1 hq.1, by simpa using hq.2⟩
    rw [List.flatMap_append, List.flatMap_singleton, List.eraseDups_append, List.pairwise_append]
    refine ⟨?_, ?_, ?_⟩
    · exact ih.imp fun h hdepth ↦ (h hdepth).append [d]
    · refine (nodup_eraseDups _).imp_of_mem fun hp hq hne hdepth ↦ ?_
      exact absurd (eq_of_passes (hnew _ hp).1 (hnew _ hq).1 hdepth) hne
    · intro p hp q hq _
      rw [List.mem_eraseDups, ← isOnTheWay_iff] at hp
      exact ⟨declared, List.prefix_append _ _, hp, (hnew q hq).2⟩

theorem filter_expand (declared : List Path) (n : Nat) :
    ((expand declared).filter fun p ↦ p.depth = n) =
      (declared.flatMap ancestors).eraseDups.filter fun p ↦ p.depth = n := by
  let paths := (declared.flatMap ancestors).eraseDups
  have hlevel : (paths.filter fun p ↦ p.depth = n).Pairwise fun p q ↦ p.depth ≤ q.depth := by
    refine List.pairwise_of_forall_mem_list fun p hp q hq ↦ ?_
    have hp : p.depth = n := by simpa using List.of_mem_filter hp
    have hq : q.depth = n := by simpa using List.of_mem_filter hq
    omega
  have hkept : (paths.filter fun p ↦ p.depth = n).Sublist (expand declared) :=
    List.sublist_mergeSort depth_le_trans depth_le_total (by simpa using hlevel)
      List.filter_sublist
  have hlength : (paths.filter fun p ↦ p.depth = n).length =
      ((expand declared).filter fun p ↦ p.depth = n).length :=
    ((List.mergeSort_perm paths _).filter _).length_eq.symm
  have hfilter := hkept.filter fun p ↦ decide (p.depth = n)
  rw [List.filter_filter] at hfilter
  simp only [Bool.and_self] at hfilter
  exact (hfilter.eq_of_length hlength).symm

theorem pairwise_expand (declared : List Path) :
    (expand declared).Pairwise fun p q ↦ p.depth = q.depth → OccursBefore declared p q := by
  rw [List.pairwise_iff_forall_sublist]
  intro p q h hdepth
  have hlevel := h.filter fun r ↦ decide (r.depth = q.depth)
  rw [filter_expand] at hlevel
  have hpair : [p, q].Sublist (declared.flatMap ancestors).eraseDups := by
    simpa [hdepth] using hlevel.trans List.filter_sublist
  exact List.pairwise_iff_forall_sublist.1 (pairwise_occursBefore declared) hpair hdepth

/-- Where parents come first, going on from each path adds nothing. -/
theorem eraseDups_flatMap_ancestors (hdistinct : paths.Nodup)
    (hparents : ∀ before p behind, paths = before ++ p :: behind →
      ∀ q, p.parent? = some q → q ∈ before) : (paths.flatMap ancestors).eraseDups = paths := by
  induction paths using List.reverseRecOn with
  | nil => simp
  | append_singleton paths p ih =>
    have hpaths : (paths.flatMap ancestors).eraseDups = paths := by
      apply ih hdistinct.of_append_left
      intro before q behind h
      apply hparents before q (behind ++ [p])
      rw [h]
      simp
    have hmem (a : Path) : a ∈ paths.flatMap ancestors ↔ a ∈ paths := by
      rw [← List.mem_eraseDups, hpaths]
    have hparent : ∀ a ∈ (p.parent?.map ancestors).getD [], a ∈ paths.flatMap ancestors := by
      cases hq : p.parent? with
      | none => simp
      | some q =>
        intro a ha
        exact List.mem_flatMap.2 ⟨q, hparents paths p [] rfl q hq, ha⟩
    have hnew : p ∉ paths.flatMap ancestors ++ (p.parent?.map ancestors).getD [] := by
      intro h
      have hp : p ∈ paths := (hmem p).1 ((List.mem_append.1 h).elim id (hparent p))
      exact (List.disjoint_of_nodup_append hdistinct) hp (List.mem_singleton_self p)
    rw [List.flatMap_append, List.flatMap_singleton, ancestors_parent p, ← List.append_assoc,
      eraseDups_concat, if_neg hnew, eraseDups_append_of_subset hparent, hpaths]

theorem expand_expand (declared : List Path) : expand (expand declared) = expand declared := by
  have h : ((expand declared).flatMap ancestors).eraseDups = expand declared :=
    eraseDups_flatMap_ancestors (expand_nodup declared) fun _ _ _ hsplit _ hq ↦
      parent_mem_before hsplit hq
  rw [expand_eq_of_ascending, h]
  rw [h]
  exact expand_ascending declared

theorem isExpansion_expand (declared : List Path) : IsExpansion declared (expand declared) where
  distinct := expand_nodup declared
  members p := by rw [isOnTheWay_iff, expand, List.mem_mergeSort, List.mem_eraseDups]
  parents _ _ _ h _ hq := parent_mem_before h hq
  ascending := expand_ascending declared
  firsts := pairwise_expand declared

theorem IsExpansion.unique {paths' : List Path} (h : IsExpansion declared paths)
    (h' : IsExpansion declared paths') : paths = paths' := by
  have hperm : paths.Perm paths' := by
    rw [List.perm_ext_iff_of_nodup h.distinct h'.distinct]
    intro p
    rw [h.members, h'.members]
  refine List.Perm.eq_of_pairwise ?_ (h.ascending.and h.firsts) (h'.ascending.and h'.firsts) hperm
  intro p q _ _ hpq hqp
  have hdepth : p.depth = q.depth := Nat.le_antisymm hpq.1 hqp.1
  exact absurd (hqp.2 hdepth.symm) (hpq.2 hdepth).asymm

theorem isExpansion_iff_eq_expand :
    (∀ declared paths, IsExpansion declared paths ↔ paths = expand declared) ∧
    ∀ declared, expand (expand declared) = expand declared := by
  refine ⟨fun declared paths ↦ ⟨?_, ?_⟩, expand_expand⟩
  · intro h
    exact h.unique (isExpansion_expand declared)
  · intro h
    rw [h]
    exact isExpansion_expand declared

end Listing.Path
