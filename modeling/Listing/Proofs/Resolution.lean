import Listing.Proofs.Keyed
import Listing.Proofs.Outcome
import Listing.Proofs.Path
import Listing.Schema.Basic

namespace Listing

namespace Path

theorem initials_append {α : Type} (l l' : List α) :
    initials (l ++ l') = initials l ++ (initials l').map (l ++ ·) := by
  induction l with
  | nil => simp [initials]
  | cons a l ih => simp [initials, ih, Function.comp_def]

theorem ancestors_initial {p q : Path} (h : p.passes q) : q.ancestors <+: p.ancestors := by
  obtain ⟨rest, hrest⟩ := passes_iff.1 h
  rw [ancestors, ancestors, ← hrest, initials_append, List.map_append]
  exact List.prefix_append _ _

theorem ancestors_parent (p : Path) : p.ancestors = (p.parent?.map ancestors).getD [] ++ [p] := by
  have hsplit : p.ancestors = (initials p.segments.dropLast).map ofSegments ++ [p] := by
    rw [ancestors, segments_leaf p, initials_append, List.map_append, List.dropLast_concat]
    simp [initials, ← segments_leaf, ofSegments_segments]
  rw [hsplit, parent?_eq]
  by_cases hnil : p.segments.dropLast = []
  · simp [hnil, initials]
  · rw [if_neg hnil, Option.map_some, Option.getD_some, ancestors,
      segments_ofSegments_sublist hnil (List.dropLast_sublist _)]

theorem ancestors_ne_nil (p : Path) : p.ancestors ≠ [] := by
  intro h
  have hp := mem_ancestors.2 (passes_refl p)
  simp [h] at hp

theorem isWellFormed_of_passes {p q : Path} (h : p.passes q) (hp : p.isWellFormed) :
    q.isWellFormed := by
  rw [isWellFormed, List.all_eq_true] at *
  exact fun s hs ↦ hp s ((passes_iff.1 h).subset hs)

end Path

namespace Schema

def arrival (start : Entity) (hops : List Hop) : Entity := (hops.getLast?.map (·.target)).getD start

theorem arrival_cons (start : Entity) (hop : Hop) (hops : List Hop) :
    arrival start (hop :: hops) = arrival hop.target hops := by
  rw [arrival, List.getLast?_cons, arrival]
  cases hops.getLast? <;> rfl

/-- What stops a walk before a path, at the entity reached. -/
inductive StopsAt (s : Schema) (root reached : Entity) (p : Path) : QueryError → Prop
  | unknownRelation (unnamed : reached.relation? p.leaf = none) :
      StopsAt s root reached p (.of (.unknownRelation root.name p))
  | unknownTarget {r : Relation} (named : reached.relation? p.leaf = some r)
      (missing : s.entity? r.target = none) :
      StopsAt s root reached p (.configuration (.unknownTarget reached.name r.name r.target))

variable {s : Schema} {root current : Entity} {hops : List Hop} {p : Path} {paths : List Path}
  {error : QueryError}

theorem walk_cons_eq_ok : s.walk root current (p :: paths) = .ok hops ↔
    ∃ r target rest, current.relation? p.leaf = some r ∧ s.entity? r.target = some target ∧
      s.walk root target paths = .ok rest ∧ ⟨p, current, r, target⟩ :: rest = hops := by
  rw [walk]
  cases current.relation? p.leaf with
  | none => simp
  | some r =>
    cases htarget : s.entity? r.target with
    | none => simp [htarget]
    | some target =>
      simp only [htarget, bind_eq_ok, pure_eq_ok]
      simp [htarget]

theorem walk_length (h : s.walk root current paths = .ok hops) : hops.length = paths.length := by
  induction paths generalizing current hops with
  | nil =>
    obtain rfl : hops = [] := (Except.ok.inj h).symm
    rfl
  | cons p paths ih =>
    obtain ⟨r, target, rest, -, -, hrest, rfl⟩ := walk_cons_eq_ok.1 h
    simp [ih hrest]

theorem walk_target_mem (h : s.walk root current paths = .ok hops) :
    ∀ hop ∈ hops, ∃ name, (name, hop.target) ∈ s.entities := by
  induction paths generalizing current hops with
  | nil =>
    obtain rfl : hops = [] := (Except.ok.inj h).symm
    simp
  | cons p paths ih =>
    obtain ⟨r, target, rest, -, htarget, hrest, rfl⟩ := walk_cons_eq_ok.1 h
    exact List.forall_mem_cons.2 ⟨⟨r.target, Keyed.mem_of_get? htarget⟩, ih hrest⟩

theorem walk_append {paths' : List Path} (h : s.walk root current (paths ++ paths') = .ok hops) :
    ∃ before, s.walk root current paths = .ok before ∧ before <+: hops := by
  induction paths generalizing current hops with
  | nil => exact ⟨[], rfl, List.nil_prefix⟩
  | cons p paths ih =>
    obtain ⟨r, target, rest, hr, htarget, hrest, rfl⟩ := walk_cons_eq_ok.1 h
    obtain ⟨before, hbefore, hinitial⟩ := ih hrest
    exact ⟨_, walk_cons_eq_ok.2 ⟨r, target, before, hr, htarget, hbefore, rfl⟩,
      List.cons_prefix_cons.2 ⟨rfl, hinitial⟩⟩

theorem walk_concat (h : s.walk root current (paths ++ [p]) = .ok hops) :
    ∃ before hop, s.walk root current paths = .ok before ∧ hops = before ++ [hop] ∧
      hop.parent = arrival current before ∧ hop.parent.relation? p.leaf = some hop.relation ∧
      s.entity? hop.relation.target = some hop.target := by
  induction paths generalizing current hops with
  | nil =>
    obtain ⟨r, target, rest, hr, htarget, hrest, rfl⟩ := walk_cons_eq_ok.1 h
    obtain rfl : [] = rest := Except.ok.inj hrest
    exact ⟨[], _, rfl, rfl, rfl, hr, htarget⟩
  | cons q paths ih =>
    obtain ⟨r, target, rest, hr, htarget, hrest, rfl⟩ := walk_cons_eq_ok.1 h
    obtain ⟨before, hop, hbefore, rfl, hparent, hlast⟩ := ih hrest
    refine ⟨_, hop, walk_cons_eq_ok.2 ⟨r, target, before, hr, htarget, hbefore, rfl⟩, rfl, ?_,
      hlast⟩
    rw [hparent, arrival_cons]

/-- A walk that fails has come to some entity before one of the paths, and is stopped there. -/
theorem walk_eq_error (h : s.walk root current paths = .error error) :
    ∃ before p behind hops, paths = before ++ p :: behind ∧
      s.walk root current before = .ok hops ∧
      s.StopsAt root (arrival current hops) p error := by
  induction paths generalizing current with
  | nil => simp [walk] at h
  | cons p paths ih =>
    rw [walk] at h
    cases hnamed : current.relation? p.leaf with
    | none =>
      rw [hnamed] at h
      obtain rfl := Except.error.inj h
      exact ⟨[], p, paths, [], rfl, rfl, .unknownRelation hnamed⟩
    | some r =>
      cases hfound : s.entity? r.target with
      | none =>
        simp only [hnamed, hfound] at h
        obtain rfl := Except.error.inj h
        exact ⟨[], p, paths, [], rfl, rfl, .unknownTarget hnamed hfound⟩
      | some target =>
        simp only [hnamed, hfound] at h
        cases hrest : s.walk root target paths with
        | ok rest => simp [hrest] at h
        | error error' =>
          rw [hrest] at h
          obtain rfl : error' = error := Except.error.inj h
          obtain ⟨before, q, behind, hops, rfl, hwalk, hstops⟩ := ih hrest
          have hfirst := walk_cons_eq_ok.2 ⟨r, target, hops, hnamed, hfound, hwalk, rfl⟩
          refine ⟨p :: before, q, behind, _, rfl, hfirst, ?_⟩
          rwa [arrival_cons]

theorem StopsAt.missing {reached : Entity} {r : Relation} (h : s.StopsAt root reached p error)
    (hr : reached.relation? p.leaf = some r) : s.entity? r.target = none := by
  cases h with
  | unknownRelation unnamed => simp [unnamed] at hr
  | unknownTarget named missing =>
    obtain rfl := Option.some.inj (named.symm.trans hr)
    exact missing

theorem resolvePath_eq_ok :
    s.resolvePath root p = .ok hops ↔
      p.isWellFormed ∧ s.walk root root p.ancestors = .ok hops := by
  rw [resolvePath]
  split <;> simp_all

theorem resolvePath_target_mem (h : s.resolvePath root p = .ok hops) :
    ∀ hop ∈ hops, ∃ name, (name, hop.target) ∈ s.entities :=
  walk_target_mem (resolvePath_eq_ok.1 h).2

theorem resolvePath_ne_nil (h : s.resolvePath root p = .ok hops) : hops ≠ [] := by
  intro hnil
  have hlength := walk_length (resolvePath_eq_ok.1 h).2
  rw [hnil, List.length_nil] at hlength
  exact Path.ancestors_ne_nil p (List.length_eq_zero_iff.1 hlength.symm)

theorem resolvePath_of_passes {q : Path} (h : s.resolvePath root p = .ok hops)
    (hq : p.passes q) : ∃ before, s.resolvePath root q = .ok before ∧ before <+: hops := by
  obtain ⟨hformed, hwalk⟩ := resolvePath_eq_ok.1 h
  obtain ⟨rest, hrest⟩ := Path.ancestors_initial hq
  rw [← hrest] at hwalk
  obtain ⟨before, hbefore, hinitial⟩ := walk_append hwalk
  exact ⟨before, resolvePath_eq_ok.2 ⟨Path.isWellFormed_of_passes hq hformed, hbefore⟩, hinitial⟩

/-- The last hop along a path takes its last segment, from the entity that its parent leads to. -/
theorem resolvePath_last (h : s.resolvePath root p = .ok hops) : ∃ before hop,
    hops = before ++ [hop] ∧ (∀ column, s.ownerOf root ⟨p.parent?, column⟩ = .ok hop.parent) ∧
      hop.parent.relation? p.leaf = some hop.relation ∧
      s.entity? hop.relation.target = some hop.target := by
  obtain ⟨hformed, hwalk⟩ := resolvePath_eq_ok.1 h
  rw [Path.ancestors_parent] at hwalk
  obtain ⟨before, hop, hbefore, hhops, hparent, hlast⟩ := walk_concat hwalk
  refine ⟨before, hop, hhops, fun column ↦ ?_, hlast⟩
  rw [hparent]
  cases hq : p.parent? with
  | none =>
    rw [hq] at hbefore
    obtain rfl : [] = before := Except.ok.inj hbefore
    rfl
  | some q =>
    rw [hq] at hbefore
    have hq := Path.isWellFormed_of_passes (Path.passes_parent hq) hformed
    exact bind_eq_ok.2 ⟨before, resolvePath_eq_ok.2 ⟨hq, hbefore⟩, rfl⟩

theorem exists_relation (h : s.resolvePath root p = .ok hops) (column : String) :
    ∃ e, s.ownerOf root ⟨p.parent?, column⟩ = .ok e ∧ (e.relation? p.leaf).isSome := by
  obtain ⟨-, hop, -, howner, hrelation, -⟩ := resolvePath_last h
  exact ⟨hop.parent, howner column, Option.isSome_iff_exists.2 ⟨_, hrelation⟩⟩

end Schema

end Listing
