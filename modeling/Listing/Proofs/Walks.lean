import Listing.Proofs.Resolution
import Mathlib.Data.List.Chain

namespace Listing

namespace Path

variable {p a : Path} {before behind : List Path} {k : Nat}

theorem map_leaf_ancestors (p : Path) : p.ancestors.map leaf = p.segments := by
  induction h : p.depth using Nat.strongRecOn generalizing p with
  | _ n ih =>
    rw [ancestors_parent]
    cases hq : p.parent? with
    | none =>
      rw [parent?_eq_none.1 hq]
      rfl
    | some q =>
      have hdepth := depth_parent hq
      have hq' := ih q.depth (by omega) q rfl
      rw [parent?_eq_some.1 hq, ← hq']
      simp

theorem length_ancestors (p : Path) : p.ancestors.length = p.depth := by
  rw [depth, ← map_leaf_ancestors, List.length_map]

theorem parent_of_ancestors_concat (h : p.ancestors = before ++ [a]) :
    (p.parent?.map ancestors).getD [] = before ∧ p = a := by
  rw [ancestors_parent] at h
  obtain ⟨hbefore, ha⟩ := List.append_inj' h rfl
  exact ⟨hbefore, List.singleton_inj.1 ha⟩

theorem ancestors_of_split (h : p.ancestors = before ++ a :: behind) :
    a.ancestors = before ++ [a] := by
  -- along the parents of `p`, until `a` comes last
  induction behind using List.reverseRecOn generalizing p with
  | nil =>
    obtain ⟨-, rfl⟩ := parent_of_ancestors_concat h
    exact h
  | append_singleton behind last ih =>
    rw [← List.cons_append, ← List.append_assoc] at h
    obtain ⟨hparent, -⟩ := parent_of_ancestors_concat h
    cases hq : p.parent? with
    | none => simp [hq] at hparent
    | some q =>
      rw [hq] at hparent
      exact ih hparent

theorem depth_of_getElem? (h : p.ancestors[k]? = some a) : a.depth = k + 1 := by
  obtain ⟨hk, rfl⟩ := List.getElem?_eq_some_iff.1 h
  have hsplit : p.ancestors =
      p.ancestors.take k ++ p.ancestors[k] :: p.ancestors.drop (k + 1) := by
    rw [← List.drop_eq_getElem_cons, List.take_append_drop]
  rw [← length_ancestors, ancestors_of_split hsplit, List.length_append, List.length_take]
  simp only [List.length_singleton]
  omega

end Path

namespace Schema

/-- Segments that lead from an entity to another: each names a relation of the entity reached so far
whose target is there. -/
inductive LeadsTo (s : Schema) : Entity → List String → Entity → Prop
  | here (e : Entity) : LeadsTo s e [] e
  | along {e target final : Entity} {r : Relation} {segment : String} {segments : List String}
      (named : e.relation? segment = some r) (found : s.entity? r.target = some target)
      (rest : LeadsTo s target segments final) : LeadsTo s e (segment :: segments) final

/-- Hops that take the relations that segments name, each from where the hop before has come to. -/
structure IsWalk (s : Schema) (start : Entity) (segments : List String) (hops : List Hop) :
    Prop where
  named : hops.map (·.relation.name) = segments
  first : ∀ hop ∈ hops.head?, hop.parent = start
  chained : hops.IsChain fun hop next ↦ next.parent = hop.target
  relations : ∀ hop ∈ hops, hop.parent.relation? hop.relation.name = some hop.relation
  targets : ∀ hop ∈ hops, s.entity? hop.relation.target = some hop.target

structure IsShortestUnresolved (s : Schema) (root : Entity) (p a : Path) : Prop where
  ancestor : a ∈ p.ancestors
  unresolved : ∀ hops, s.resolvePath root a ≠ .ok hops
  shorter : ∀ b ∈ p.ancestors, b.depth < a.depth → ∃ hops, s.resolvePath root b = .ok hops

structure IsResolvedByWalk (s : Schema) (root : Entity) (p : Path) : Prop where
  succeeds : (∃ hops, s.resolvePath root p = .ok hops) ↔
    p.isWellFormed ∧ ∃ e, s.LeadsTo root p.segments e
  walked : ∀ hops, s.resolvePath root p = .ok hops ↔
    p.isWellFormed ∧ hops.map (·.path) = p.ancestors ∧ s.IsWalk root p.segments hops
  length : ∀ hops, s.resolvePath root p = .ok hops → hops.length = p.depth
  /-- The first hops are those of the paths on the way. -/
  initial : ∀ hops, s.resolvePath root p = .ok hops → ∀ k a, p.ancestors[k]? = some a →
    s.resolvePath root a = .ok (hops.take (k + 1))
  stopped : p.isWellFormed → ∀ e, s.resolvePath root p = .error e →
    ∃ a reached, s.IsShortestUnresolved root p a ∧ s.LeadsTo root a.segments.dropLast reached ∧
      s.StopsAt root reached a e

variable {s : Schema} {root current e : Entity} {hops : List Hop} {p a : Path} {paths : List Path}
  {error : QueryError}

/-- The walk along paths comes to where their last segments lead. -/
theorem leadsTo_iff : s.LeadsTo current (paths.map Path.leaf) e ↔
    ∃ hops, s.walk root current paths = .ok hops ∧ arrival current hops = e := by
  induction paths generalizing current with
  | nil =>
    constructor
    · intro h
      cases h
      exact ⟨[], rfl, rfl⟩
    · intro h
      obtain ⟨hops, hwalk, rfl⟩ := h
      obtain rfl : [] = hops := Except.ok.inj hwalk
      exact .here current
  | cons p paths ih =>
    constructor
    · intro h
      obtain _ | @⟨_, target, _, r, _, _, hnamed, hfound, hrest⟩ := h
      obtain ⟨hops, hwalk, hend⟩ := ih.1 hrest
      refine ⟨_, walk_cons_eq_ok.2 ⟨r, target, hops, hnamed, hfound, hwalk, rfl⟩, ?_⟩
      rwa [arrival_cons]
    · intro h
      obtain ⟨hops, hwalk, hend⟩ := h
      obtain ⟨r, target, rest, hnamed, hfound, hrest, rfl⟩ := walk_cons_eq_ok.1 hwalk
      rw [arrival_cons] at hend
      exact .along hnamed hfound (ih.2 ⟨rest, hrest, hend⟩)

theorem walk_eq_ok_iff : s.walk root current paths = .ok hops ↔
    hops.map (·.path) = paths ∧ s.IsWalk current (paths.map Path.leaf) hops := by
  induction paths generalizing current hops with
  | nil =>
    constructor
    · intro h
      obtain rfl : [] = hops := Except.ok.inj h
      exact ⟨rfl, rfl, by simp, .nil, by simp, by simp⟩
    · intro h
      obtain rfl := List.map_eq_nil_iff.1 h.1
      rfl
  | cons p paths ih =>
    constructor
    · intro h
      obtain ⟨r, target, rest, hnamed, hfound, hrest, rfl⟩ := walk_cons_eq_ok.1 h
      obtain ⟨hpaths, hwalk⟩ := ih.1 hrest
      have hname : r.name = p.leaf := by simpa using List.find?_some hnamed
      refine ⟨by rw [List.map_cons, hpaths], ?_, ?_, ?_, ?_, ?_⟩
      · rw [List.map_cons, List.map_cons, hwalk.named, hname]
      · simp
      · exact List.isChain_cons.2 ⟨hwalk.first, hwalk.chained⟩
      · exact List.forall_mem_cons.2 ⟨hname ▸ hnamed, hwalk.relations⟩
      · exact List.forall_mem_cons.2 ⟨hfound, hwalk.targets⟩
    · intro h
      obtain ⟨hpaths, hwalk⟩ := h
      obtain ⟨hop, rest, rfl, rfl, hrest⟩ := List.map_eq_cons_iff.1 hpaths
      obtain ⟨hname, hnames⟩ := List.cons.inj hwalk.named
      obtain ⟨hfirst, hchained⟩ := List.isChain_cons.1 hwalk.chained
      obtain ⟨hrelation, hrelations⟩ := List.forall_mem_cons.1 hwalk.relations
      obtain ⟨htarget, htargets⟩ := List.forall_mem_cons.1 hwalk.targets
      obtain rfl : hop.parent = current := hwalk.first hop rfl
      have hwalk' := ih.2 ⟨hrest, hnames, hfirst, hchained, hrelations, htargets⟩
      have hrelation : hop.parent.relation? hop.path.leaf = some hop.relation := hname ▸ hrelation
      exact walk_cons_eq_ok.2 ⟨hop.relation, hop.target, rest, hrelation, htarget, hwalk', rfl⟩

theorem exists_resolvePath {before behind : List Path} {b : Path} (hformed : p.isWellFormed)
    (hsplit : p.ancestors = before ++ behind) (hwalk : s.walk root root before = .ok hops)
    (hb : b ∈ before) : ∃ hops', s.resolvePath root b = .ok hops' := by
  have hpasses : p.passes b := Path.mem_ancestors.1 (hsplit ▸ List.mem_append_left _ hb)
  obtain ⟨first, rest, rfl⟩ := List.append_of_mem hb
  rw [List.append_assoc] at hsplit
  rw [List.append_cons, ← Path.ancestors_of_split hsplit] at hwalk
  obtain ⟨hops', hwalk', -⟩ := walk_append hwalk
  exact ⟨hops', resolvePath_eq_ok.2 ⟨Path.isWellFormed_of_passes hpasses hformed, hwalk'⟩⟩

theorem not_resolvePath_of_stopsAt {before : List Path} (hancestors : a.ancestors = before ++ [a])
    (hwalk : s.walk root root before = .ok hops)
    (hstops : s.StopsAt root (arrival root hops) a error) (hops' : List Hop) :
    s.resolvePath root a ≠ .ok hops' := by
  intro hresolved
  have hwalk' := (resolvePath_eq_ok.1 hresolved).2
  rw [hancestors] at hwalk'
  obtain ⟨_, hop, hbefore, -, hparent, hrelation, htarget⟩ := walk_concat hwalk'
  obtain rfl := Except.ok.inj (hbefore.symm.trans hwalk)
  rw [hparent] at hrelation
  simp [hstops.missing hrelation] at htarget

theorem isShortestUnresolved_of_walk {before behind : List Path} (hformed : p.isWellFormed)
    (hsplit : p.ancestors = before ++ a :: behind) (hwalk : s.walk root root before = .ok hops)
    (hstops : s.StopsAt root (arrival root hops) a error) :
    s.IsShortestUnresolved root p a := by
  have ha : a ∈ p.ancestors := by simp [hsplit]
  have hancestors : a.ancestors = before ++ [a] := Path.ancestors_of_split hsplit
  refine ⟨ha, not_resolvePath_of_stopsAt hancestors hwalk hstops, ?_⟩
  intro b hb hdepth
  have hbefore : b ∈ before ++ [a] := by
    rw [← hancestors, Path.mem_ancestors]
    exact Path.passes_of_depth_le (Path.mem_ancestors.1 ha) (Path.mem_ancestors.1 hb) hdepth.le
  rcases List.mem_append.1 hbefore with hbefore | hlast
  · exact exists_resolvePath hformed hsplit hwalk hbefore
  · rw [List.mem_singleton.1 hlast] at hdepth
    exact absurd hdepth (Nat.lt_irrefl _)

theorem isResolvedByWalk (s : Schema) (root : Entity) (p : Path) : s.IsResolvedByWalk root p where
  succeeds := by
    simp only [resolvePath_eq_ok, exists_and_left, ← Path.map_leaf_ancestors]
    refine and_congr_right fun _ ↦ ?_
    constructor
    · intro h
      obtain ⟨hops, hwalk⟩ := h
      exact ⟨_, leadsTo_iff.2 ⟨hops, hwalk, rfl⟩⟩
    · intro h
      obtain ⟨e, he⟩ := h
      obtain ⟨hops, hwalk, -⟩ := leadsTo_iff.1 he
      exact ⟨hops, hwalk⟩
  walked hops := by
    rw [resolvePath_eq_ok, walk_eq_ok_iff, Path.map_leaf_ancestors]
  length hops h := by
    rw [walk_length (resolvePath_eq_ok.1 h).2, Path.length_ancestors]
  initial hops h k a ha := by
    have hpasses := Path.mem_ancestors.1 (List.mem_of_getElem? ha)
    obtain ⟨before, hbefore, hinitial⟩ := resolvePath_of_passes h hpasses
    have hlength := walk_length (resolvePath_eq_ok.1 hbefore).2
    rw [Path.length_ancestors, Path.depth_of_getElem? ha] at hlength
    rw [hbefore, List.prefix_iff_eq_take.1 hinitial, hlength]
  stopped hformed error h := by
    rw [resolvePath, if_pos hformed] at h
    obtain ⟨before, a, behind, hops, hsplit, hwalk, hstops⟩ := walk_eq_error h
    refine ⟨a, _, isShortestUnresolved_of_walk hformed hsplit hwalk hstops, ?_, hstops⟩
    have hsegments : a.segments.dropLast = before.map Path.leaf := by
      rw [← Path.map_leaf_ancestors, Path.ancestors_of_split hsplit]
      simp
    rw [hsegments, leadsTo_iff]
    exact ⟨hops, hwalk, rfl⟩

end Schema

end Listing
