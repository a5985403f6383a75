import Listing.Proofs.Keyed
import Listing.Proofs.Path
import Listing.Record
import Mathlib.Data.List.Induction

namespace Listing

/-- Where a record stands in a result. -/
inductive Place
  | root
  | joined (j : Join)

namespace Place

def path? : Place → Option Path
  | root => none
  | joined j => some j.path

def segments : Place → List String
  | root => []
  | joined j => j.path.segments

def output (n : Place) (column : String) : String := Field.text ⟨n.path?, column⟩

def relations (n : Place) (joins : List Join) : List Join :=
  joins.filter fun j ↦ j.path.parent? == n.path?

theorem parent?_eq_path? {n : Place} {p : Path} :
    p.parent? = n.path? ↔ p.segments = n.segments ++ [p.leaf] := by
  cases n with
  | root => exact Path.parent?_eq_none
  | joined j => exact Path.parent?_eq_some

variable {n : Place} {joins : List Join} {j k : Join}

theorem mem_relations :
    j ∈ n.relations joins ↔ j ∈ joins ∧ j.path.segments = n.segments ++ [j.path.leaf] := by
  rw [relations, List.mem_filter, beq_iff_eq, parent?_eq_path?]

theorem segments_relation (h : j ∈ n.relations joins) :
    segments (.joined j) = n.segments ++ [j.path.leaf] :=
  (mem_relations.1 h).2

theorem relations_concat_of_starts (h : j.path.segments = n.segments ++ [j.path.leaf]) :
    n.relations (joins ++ [j]) = n.relations joins ++ [j] := by
  rw [relations, List.filter_append, List.filter_singleton, parent?_eq_path?.2 h]
  simp [relations]

theorem relations_concat_of_not_starts (h : j.path.segments ≠ n.segments ++ [j.path.leaf]) :
    n.relations (joins ++ [j]) = n.relations joins := by
  have hne : (j.path.parent? == n.path?) = false := by
    simpa using fun e ↦ h (parent?_eq_path?.1 e)
  rw [relations, List.filter_append, List.filter_singleton, hne]
  simp [relations]

theorem path_eq_of_leaf_eq (hj : j ∈ n.relations joins) (hk : k ∈ n.relations joins)
    (h : j.path.leaf = k.path.leaf) : j.path = k.path := by
  apply Path.segments_injective
  rw [(mem_relations.1 hj).2, (mem_relations.1 hk).2, h]

end Place

namespace Shape

def at? : List String → Shape → Option Shape
  | [], s => some s
  | name :: names, s => (Keyed.get? s.children name).bind (at? names)

theorem at?_concat (names : List String) (name : String) (s : Shape) :
    at? (names ++ [name]) s = (at? names s).bind fun t ↦ Keyed.get? t.children name := by
  induction names generalizing s with
  | nil =>
    cases h : Keyed.get? s.children name <;> simp [at?, h]
  | cons n names ih =>
    cases h : Keyed.get? s.children n <;> simp [at?, h, ih]

theorem keyOf_eq {j : Join} (hne : j.primaryKey ≠ []) (h : ∀ c ∈ j.primaryKey, c ∈ j.columns) :
    keyOf j = j.primaryKey.map (Place.joined j).output := by
  have hfilter : j.primaryKey.filter j.columns.contains = j.primaryKey :=
    List.filter_eq_self.2 (by simpa using h)
  rw [keyOf, hfilter]
  split
  · contradiction
  · rfl

end Shape

namespace Plan

def rootColumns (p : Plan) : List String :=
  (p.select.map (·.output)).filter fun o ↦ !o.toList.contains '.'

def bare (p : Plan) : Place → Shape
  | .root => .mk (p.rootColumns.map fun o ↦ (o, o)) p.primaryKey false []
  | .joined j => Shape.ofJoin j

/-- Every path is joined once, and after its parent. -/
structure IsNested (joins : List Join) : Prop where
  paths : (joins.map (·.path)).Nodup
  parents : ∀ before j after, joins = before ++ j :: after →
    ∀ q, j.path.parent? = some q → q ∈ before.map (·.path)

/-- Everything that is joined below a place, and nothing else, is found in its shape. -/
inductive Describes (p : Plan) (joins : List Join) : Place → Shape → Prop
  | intro (n : Place) (child : Join → Shape) :
    (∀ j ∈ n.relations joins, Describes p joins (.joined j) (child j)) →
    Describes p joins n (.mk (p.bare n).columns (p.bare n).key (p.bare n).many
      ((n.relations joins).map fun j ↦ (j.path.leaf, child j)))

variable {p : Plan} {joins : List Join} {n : Place} {s : Shape} {j : Join}

theorem IsNested.nodup_leaves (hp : IsNested joins) (n : Place) :
    ((n.relations joins).map (·.path.leaf)).Nodup := by
  have hpaths : ((n.relations joins).map (·.path)).Nodup :=
    (List.filter_sublist.map _).nodup hp.paths
  refine List.pairwise_map.2 ((List.pairwise_map.1 hpaths).imp_of_mem fun hj hk hjk hleaf ↦ hjk ?_)
  exact Place.path_eq_of_leaf_eq hj hk hleaf

theorem Describes.own (h : p.Describes joins n s) : s.columns = (p.bare n).columns ∧
    s.key = (p.bare n).key ∧ s.many = (p.bare n).many := by
  obtain ⟨n, child, -⟩ := h
  exact ⟨rfl, rfl, rfl⟩

theorem Describes.concat (h : p.Describes joins n s) (hj : ¬ n.segments <+: j.path.segments) :
    p.Describes (joins ++ [j]) n s := by
  induction h with
  | intro n child _ ih =>
    have hrelations : n.relations (joins ++ [j]) = n.relations joins :=
      Place.relations_concat_of_not_starts fun h ↦ hj ⟨_, h.symm⟩
    rw [← hrelations]
    refine .intro n child fun k hk ↦ ?_
    rw [hrelations] at hk
    refine ih k hk fun hkj ↦ hj ?_
    rw [Place.segments_relation hk] at hkj
    exact (List.prefix_append _ _).trans hkj

theorem describes_ofJoin (hjoins : Place.relations (.joined j) joins = []) :
    p.Describes (joins ++ [j]) (.joined j) (.ofJoin j) := by
  have hown : Place.relations (.joined j) (joins ++ [j]) = [] := by
    rw [Place.relations_concat_of_not_starts, hjoins]
    simp [Place.segments]
  have h : p.Describes (joins ++ [j]) (.joined j) _ :=
    .intro (.joined j) (fun k ↦ .ofJoin k) (by simp [hown])
  rwa [hown] at h

theorem Describes.put (h : p.Describes joins n s) (hnew : j.path ∉ joins.map (·.path))
    (hjoins : Place.relations (.joined j) joins = [])
    (hj : j.path.segments = n.segments ++ [j.path.leaf]) :
    p.Describes (joins ++ [j]) n (Shape.graft j.path.leaf (.ofJoin j) [] s) := by
  obtain ⟨n, child, hchild⟩ := h
  have hleaves : ∀ k ∈ n.relations joins, k.path.leaf ≠ j.path.leaf := by
    intro k hk he
    refine hnew (List.mem_map.2 ⟨k, (Place.mem_relations.1 hk).1, Path.segments_injective ?_⟩)
    rw [(Place.mem_relations.1 hk).2, hj, he]
  have hleaf : j.path.leaf ∉
      Keyed.keys ((n.relations joins).map fun k ↦ (k.path.leaf, child k)) := by
    simpa [Keyed.keys] using hleaves
  have hne : ∀ k ∈ n.relations joins, k ≠ j := fun k hk e ↦ hleaves k hk (e ▸ rfl)
  have hrelations : n.relations (joins ++ [j]) = n.relations joins ++ [j] :=
    Place.relations_concat_of_starts hj
  have hintro : p.Describes (joins ++ [j]) n _ :=
    .intro n (fun k ↦ if k = j then .ofJoin j else child k) ?_
  · rw [hrelations, List.map_append, List.map_singleton, if_pos rfl] at hintro
    rw [Shape.graft, Keyed.put_of_not_mem hleaf]
    convert hintro using 3
    refine List.map_congr_left fun k hk ↦ ?_
    rw [if_neg (hne k hk)]
  · intro k hk
    rw [hrelations] at hk
    rcases List.mem_append.1 hk with hk | hk
    · rw [if_neg (hne k hk)]
      refine (hchild k hk).concat fun hkj ↦ hleaves k hk ?_
      rw [Place.segments_relation hk, hj] at hkj
      simpa using hkj
    · obtain rfl := List.mem_singleton.1 hk
      rw [if_pos rfl]
      exact describes_ofJoin hjoins

theorem Describes.graft {names : List String} (h : p.Describes joins n s)
    (hnew : j.path ∉ joins.map (·.path)) (hjoins : Place.relations (.joined j) joins = [])
    (hj : j.path.segments = n.segments ++ names ++ [j.path.leaf]) :
    p.Describes (joins ++ [j]) n (Shape.graft j.path.leaf (.ofJoin j) names s) := by
  induction names generalizing n s with
  | nil => exact h.put hnew hjoins (by rw [hj, List.append_nil])
  | cons name names ih =>
    obtain ⟨n, child, hchild⟩ := h
    have hrelations : n.relations (joins ++ [j]) = n.relations joins := by
      refine Place.relations_concat_of_not_starts fun h ↦ ?_
      rw [hj] at h
      simp at h
    have hintro : p.Describes (joins ++ [j]) n _ := .intro n
      (fun k ↦ if k.path.leaf = name then Shape.graft j.path.leaf (.ofJoin j) names (child k)
        else child k) ?_
    · rw [hrelations] at hintro
      rw [Shape.graft, List.map_map]
      exact hintro
    · intro k hk
      rw [hrelations] at hk
      -- Only the relation that the path goes through is grafted on, and `ih` is about its shape.
      by_cases hname : k.path.leaf = name
      · rw [if_pos hname]
        refine ih (hchild k hk) ?_
        rw [hj, Place.segments_relation hk, hname]
        simp
      · rw [if_neg hname]
        refine (hchild k hk).concat fun hkj ↦ hname ?_
        rw [Place.segments_relation hk, hj] at hkj
        simpa using hkj

theorem IsNested.path_new {before after : List Join} (h : IsNested (before ++ j :: after)) :
    j.path ∉ before.map (·.path) := by
  have hpaths := h.paths
  rw [List.map_append, List.map_cons] at hpaths
  exact fun hmem ↦ (List.nodup_append.1 hpaths).2.2 _ hmem _ (by simp) rfl

theorem IsNested.relations_before {before after : List Join}
    (h : IsNested (before ++ j :: after)) : Place.relations (.joined j) before = [] := by
  refine List.eq_nil_iff_forall_not_mem.2 fun k hk ↦ h.path_new ?_
  obtain ⟨hk, hsegments⟩ := Place.mem_relations.1 hk
  obtain ⟨front, back, rfl⟩ := List.append_of_mem hk
  have hparent := h.parents front k (back ++ j :: after) (by simp) j.path
    (Path.parent?_eq_some.2 hsegments)
  simp [hparent]

/-- The shape of a plan describes all its joins. -/
theorem describes_ofPlan (hp : IsNested p.joins) : p.Describes p.joins .root (.ofPlan p) := by
  have run : ∀ after before s, p.joins = before ++ after → p.Describes before .root s →
      p.Describes p.joins .root (after.foldl Shape.addJoin s) := by
    intro after
    induction after with
    | nil =>
      intro before s hsplit hs
      rw [List.append_nil] at hsplit
      rwa [hsplit]
    | cons j after ih =>
      intro before s hsplit hs
      have hsplitted : IsNested (before ++ j :: after) := hsplit ▸ hp
      refine ih (before ++ [j]) _ (by simp [hsplit])
        (hs.graft hsplitted.path_new hsplitted.relations_before ?_)
      cases hparent : j.path.parent? with
      | none => exact Path.parent?_eq_none.1 hparent
      | some q => exact Path.parent?_eq_some.1 hparent
  exact run p.joins [] _ rfl (.intro .root (fun j ↦ .ofJoin j) (by simp [Place.relations]))

theorem Describes.child (h : p.Describes joins n s) (hjoins : IsNested joins)
    (hj : j ∈ n.relations joins) : ∃ child, Keyed.get? s.children j.path.leaf = some child ∧
      p.Describes joins (.joined j) child := by
  obtain ⟨n, child, hchild⟩ := h
  refine ⟨child j, Keyed.get?_map_of_mem hj fun k hk hleaf ↦ ?_, hchild j hj⟩
  exact List.inj_on_of_nodup_map hjoins.paths (Place.mem_relations.1 hk).1
    (Place.mem_relations.1 hj).1 (Place.path_eq_of_leaf_eq hk hj hleaf)

theorem IsNested.mem_relations (h : IsNested joins) (hj : j ∈ joins) :
    j ∈ Place.root.relations joins ∨ ∃ i ∈ joins, j ∈ (Place.joined i).relations joins := by
  cases hparent : j.path.parent? with
  | none => exact .inl (Place.mem_relations.2 ⟨hj, Path.parent?_eq_none.1 hparent⟩)
  | some q =>
    obtain ⟨before, after, rfl⟩ := List.append_of_mem hj
    obtain ⟨i, hi, rfl⟩ := List.mem_map.1 (h.parents before j after rfl q hparent)
    exact .inr ⟨i, List.mem_append_left _ hi,
      Place.mem_relations.2 ⟨hj, Path.parent?_eq_some.1 hparent⟩⟩

theorem Describes.at? (h : p.Describes joins .root s) (hjoins : IsNested joins) (hj : j ∈ joins) :
    ∃ t, s.at? j.path.segments = some t ∧ p.Describes joins (.joined j) t := by
  induction hdepth : j.path.segments.length using Nat.strong_induction_on generalizing j with
  | _ depth ih =>
    obtain ⟨n, t, ht, hn, hjn⟩ : ∃ (n : Place) (t : Shape), s.at? n.segments = some t ∧
        p.Describes joins n t ∧ j ∈ n.relations joins := by
      rcases hjoins.mem_relations hj with hroot | ⟨i, hi, hji⟩
      · exact ⟨.root, s, rfl, h, hroot⟩
      · have hless : i.path.segments.length < depth := by
          rw [← hdepth, (Place.mem_relations.1 hji).2, List.length_append]
          simp [Place.segments]
        obtain ⟨t, ht, hi⟩ := ih _ hless hi rfl
        exact ⟨.joined i, t, ht, hi, hji⟩
    obtain ⟨child, hchild, hdescribes⟩ := hn.child hjoins hjn
    refine ⟨child, ?_, hdescribes⟩
    rw [(Place.mem_relations.1 hjn).2, Shape.at?_concat, ht]
    exact hchild

end Plan

end Listing
