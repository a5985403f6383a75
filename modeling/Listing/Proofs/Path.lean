import Listing.Path
import Listing.Proofs.Firsts
import Listing.Proofs.Text

namespace Listing.Path

theorem segments_ne_nil (p : Path) : p.segments ≠ [] := Text.split_ne_nil '.' p

theorem not_dot_mem {p : Path} {s : String} (h : s ∈ p.segments) : '.' ∉ s.toList :=
  Text.not_mem_of_mem_split '.' h

theorem ofSegments_segments (p : Path) : ofSegments p.segments = p := Text.join_split '.' p

theorem segments_ofSegments {segments : List String} (hne : segments ≠ [])
    (h : ∀ s ∈ segments, '.' ∉ s.toList) : (ofSegments segments).segments = segments :=
  Text.split_join '.' hne h

theorem segments_injective : Function.Injective segments := by
  intro p q h
  rw [← ofSegments_segments p, h, ofSegments_segments]

theorem segments_ofSegments_sublist {p : Path} {l : List String} (hne : l ≠ [])
    (h : l.Sublist p.segments) : (ofSegments l).segments = l :=
  segments_ofSegments hne fun _ hs ↦ not_dot_mem (h.subset hs)

theorem mem_initials {α : Type} {l a : List α} : a ∈ initials l ↔ a ≠ [] ∧ a <+: l := by
  induction l generalizing a with
  | nil => simp [initials]
  | cons x l ih =>
    cases a with
    | nil => simp [initials]
    | cons y a =>
      simp only [initials, List.mem_cons, List.cons.injEq, List.mem_map, ih, List.cons_prefix_cons,
        ne_eq, reduceCtorEq, not_false_eq_true, true_and]
      constructor
      · rintro (⟨rfl, rfl⟩ | ⟨b, ⟨_, hb⟩, rfl, rfl⟩)
        · exact ⟨rfl, List.nil_prefix⟩
        · exact ⟨rfl, hb⟩
      · rintro ⟨rfl, ha⟩
        cases a with
        | nil => exact .inl ⟨rfl, rfl⟩
        | cons z a => exact .inr ⟨z :: a, ⟨by simp, ha⟩, rfl, rfl⟩

theorem passes_iff {p a : Path} : p.passes a ↔ a.segments <+: p.segments := by
  simp [passes]

theorem mem_ancestors {p a : Path} : a ∈ p.ancestors ↔ p.passes a := by
  rw [passes_iff, ancestors, List.mem_map]
  constructor
  · rintro ⟨l, hl, rfl⟩
    obtain ⟨hne, hl⟩ := mem_initials.1 hl
    rwa [segments_ofSegments_sublist hne hl.sublist]
  · intro h
    exact ⟨a.segments, mem_initials.2 ⟨segments_ne_nil a, h⟩, ofSegments_segments a⟩

theorem passes_refl (p : Path) : p.passes p := passes_iff.2 List.prefix_rfl

theorem passes_trans {p q r : Path} (h : p.passes q) (h' : q.passes r) : p.passes r :=
  passes_iff.2 ((passes_iff.1 h').trans (passes_iff.1 h))

theorem passes_of_depth_le {p a b : Path} (ha : p.passes a) (hb : p.passes b)
    (h : b.depth ≤ a.depth) : a.passes b :=
  passes_iff.2 (List.prefix_of_prefix_length_le (passes_iff.1 hb) (passes_iff.1 ha) h)

theorem eq_of_passes {p a b : Path} (ha : p.passes a) (hb : p.passes b) (h : a.depth = b.depth) :
    a = b := by
  have hinitial := passes_iff.1 (passes_of_depth_le hb ha h.le)
  exact segments_injective (hinitial.eq_of_length h)

theorem segments_leaf (p : Path) : p.segments = p.segments.dropLast ++ [p.leaf] := by
  have h := List.dropLast_append_getLast (segments_ne_nil p)
  rw [leaf, List.getLast?_eq_getLast_of_ne_nil (segments_ne_nil p)]
  exact h.symm

theorem parent?_eq (p : Path) : p.parent? =
    if p.segments.dropLast = [] then none else some (ofSegments p.segments.dropLast) := by
  rw [parent?]
  cases hsegments : p.segments with
  | nil => exact absurd hsegments (segments_ne_nil p)
  | cons s rest => cases rest <;> simp

theorem parent?_eq_some {p q : Path} :
    p.parent? = some q ↔ p.segments = q.segments ++ [p.leaf] := by
  have hp := segments_leaf p
  rw [parent?_eq]
  constructor
  · intro h
    obtain ⟨hne, h⟩ := Option.ite_none_left_eq_some.1 h
    rw [← Option.some.inj h, segments_ofSegments_sublist hne (List.dropLast_sublist _)]
    exact hp
  · intro h
    have hq : p.segments.dropLast = q.segments := by rw [h, List.dropLast_concat]
    rw [hq, if_neg (segments_ne_nil q), ofSegments_segments]

theorem parent?_eq_none {p : Path} : p.parent? = none ↔ p.segments = [p.leaf] := by
  rw [parent?_eq]
  constructor
  · intro h
    have hnil : p.segments.dropLast = [] := by simpa using h
    have hp := segments_leaf p
    rwa [hnil] at hp
  · intro h
    simp [h]

theorem leaf_mem (p : Path) : p.leaf ∈ p.segments := by
  rw [segments_leaf]
  simp

theorem segments_of_not_dot {s : String} (h : '.' ∉ s.toList) : segments s = [s] :=
  Text.split_eq_singleton '.' h

theorem depth_parent {p q : Path} (h : p.parent? = some q) : p.depth = q.depth + 1 := by
  rw [depth, parent?_eq_some.1 h]
  simp [depth]

theorem passes_parent {p q : Path} (h : p.parent? = some q) : p.passes q :=
  passes_iff.2 ⟨_, (parent?_eq_some.1 h).symm⟩

theorem mem_expand {p : Path} {declared : List Path} :
    p ∈ expand declared ↔ p.isCovered declared := by
  simp [expand, isCovered, mem_ancestors]

theorem expand_nodup (declared : List Path) : (expand declared).Nodup :=
  (List.mergeSort_perm _ _).nodup_iff.2 (nodup_eraseDups _)

theorem depth_le_trans (p q r : Path) :
    decide (p.depth ≤ q.depth) → decide (q.depth ≤ r.depth) → decide (p.depth ≤ r.depth) := by
  simp only [decide_eq_true_eq]
  exact Nat.le_trans

theorem depth_le_total (p q : Path) : decide (p.depth ≤ q.depth) || decide (q.depth ≤ p.depth) := by
  simp only [Bool.or_eq_true, decide_eq_true_eq]
  exact Nat.le_total _ _

theorem expand_ascending (declared : List Path) :
    (expand declared).Pairwise fun p q ↦ p.depth ≤ q.depth := by
  have h := List.pairwise_mergeSort depth_le_trans depth_le_total
    (declared.flatMap ancestors).eraseDups
  simpa only [decide_eq_true_eq, expand] using h

theorem expand_eq_of_ascending {declared : List Path}
    (h : (declared.flatMap ancestors).eraseDups.Pairwise fun p q ↦ p.depth ≤ q.depth) :
    expand declared = (declared.flatMap ancestors).eraseDups :=
  List.mergeSort_of_pairwise (by simpa using h)

theorem isCovered_of_passes {p q : Path} {declared : List Path} (h : p.isCovered declared)
    (hq : p.passes q) : q.isCovered declared := by
  obtain ⟨d, hd, hp⟩ := List.any_eq_true.1 h
  exact List.any_eq_true.2 ⟨d, hd, passes_trans hp hq⟩

/-- In an expansion the parent of a path stands before it. -/
theorem parent_mem_before {declared before after : List Path} {p q : Path}
    (h : expand declared = before ++ p :: after) (hq : p.parent? = some q) : q ∈ before := by
  have hp : p.isCovered declared := mem_expand.1 (by simp [h])
  have hmem : q ∈ before ++ p :: after :=
    h ▸ mem_expand.2 (isCovered_of_passes hp (passes_parent hq))
  have hdepth := depth_parent hq
  have hsorted := h ▸ expand_ascending declared
  rcases List.mem_append.1 hmem with hb | ha
  · exact hb
  · rcases List.mem_cons.1 ha with rfl | ha
    · omega
    · have := (List.pairwise_cons.1 (List.pairwise_append.1 hsorted).2.1).1 q ha
      omega

end Listing.Path

namespace Listing.Field

theorem ofText_of_not_dot {s : String} (h : '.' ∉ s.toList) : ofText s = ⟨none, s⟩ := by
  have hs := Path.segments_of_not_dot h
  simp [ofText, Path.leaf, Path.parent?, hs]

theorem not_dot_mem_column (s : String) : '.' ∉ (ofText s).column.toList :=
  Path.not_dot_mem (Path.leaf_mem s)

theorem segments_text {q : Path} {column : String} (h : '.' ∉ column.toList) :
    Path.segments (text ⟨some q, column⟩) = q.segments ++ [column] := by
  rw [← Path.segments_of_not_dot h]
  exact Text.split_append '.' q column

theorem text_ofText (s : String) : (ofText s).text = s := by
  have hleaf : '.' ∉ (Path.leaf s).toList := not_dot_mem_column s
  apply Path.segments_injective
  cases hparent : Path.parent? s with
  | none =>
    have htext : (ofText s).text = Path.leaf s := by rw [ofText, hparent]; rfl
    rw [htext, Path.segments_of_not_dot hleaf, Path.parent?_eq_none.1 hparent]
  | some q =>
    rw [ofText, hparent, segments_text hleaf, Path.parent?_eq_some.1 hparent]

theorem ofText_text {f : Field} (h : '.' ∉ f.column.toList) : ofText f.text = f := by
  rcases f with ⟨_ | q, column⟩
  · exact ofText_of_not_dot h
  · have hsegments := segments_text (q := q) h
    have hleaf : Path.leaf (text ⟨some q, column⟩) = column := by
      simp [Path.leaf, hsegments]
    rw [ofText, hleaf]
    congr 1
    exact Path.parent?_eq_some.2 (by rw [hsegments, hleaf])

end Listing.Field
