import Listing.Proofs.Alias
import Mathlib.Data.List.Induction

namespace Listing

namespace Alias

/-- The first name that is not among the given ones. As many tries as there are given names are
enough. -/
inductive FirstFree (given : List String) (natural : String) : String → Prop
  | plain (free : natural ∉ given) : FirstFree given natural natural
  | suffixed (k : Nat) (taken : natural ∈ given) (low : 2 ≤ k) (high : k ≤ given.length + 1)
      (free : numbered natural k ∉ given)
      (least : ∀ m, 2 ≤ m → m < k → numbered natural m ∈ given) :
      FirstFree given natural (numbered natural k)

theorem firstFree_free (natural : String) (taken : List String) :
    FirstFree taken natural (free natural taken) := by
  by_cases hnatural : natural ∈ taken
  · have hskip : (candidates natural taken).find? (!taken.contains ·) =
        ((List.range taken.length).find? fun k ↦ !taken.contains (numbered natural (k + 2))).map
          fun k ↦ numbered natural (k + 2) := by
      rw [candidates, List.find?_cons_of_neg (by simpa using hnatural), List.find?_map]
      rfl
    have hfree := free_not_mem natural taken
    rw [free, hskip] at hfree ⊢
    cases hk : (List.range taken.length).find?
        fun k ↦ !taken.contains (numbered natural (k + 2)) with
    | none =>
      rw [hk] at hfree
      exact absurd hnatural hfree
    | some k =>
      rw [hk] at hfree
      obtain ⟨-, hlt, hleast⟩ := List.find?_range_eq_some.1 hk
      refine .suffixed (k + 2) hnatural (by omega) (by have := List.mem_range.1 hlt; omega) hfree ?_
      intro m hlow hhigh
      have htaken := hleast (m - 2) (by omega)
      rw [Nat.sub_add_cancel hlow] at htaken
      simpa using htaken
  · have hfirst : free natural taken = natural := by
      rw [free, candidates, List.find?_cons_of_pos (by simpa using hnatural)]
      rfl
    rw [hfirst]
    exact .plain hnatural

theorem FirstFree.congr {given given' : List String} {natural name : String}
    (h : FirstFree given natural name) (hperm : given.Perm given') :
    FirstFree given' natural name := by
  cases h with
  | plain free => exact .plain fun hmem ↦ free (hperm.mem_iff.2 hmem)
  | suffixed k taken low high free least =>
    exact .suffixed k (hperm.mem_iff.1 taken) low (hperm.length_eq ▸ high)
      (fun hmem ↦ free (hperm.mem_iff.2 hmem)) fun m hm hk ↦ hperm.mem_iff.1 (least m hm hk)

end Alias

inductive AliasCall
  | path (p : Path)
  | unique (natural : String)
  | relation (p : Option Path)
  | column (column : String) (p : Option Path)
  | dotted (field : String)
  deriving DecidableEq, Repr

namespace AliasCall

def path? : AliasCall → Option Path
  | path p => some p
  | unique _ => none
  | relation p | column _ p => p
  | dotted field => (Field.ofText field).relation

def perform (t : AliasTable) : AliasCall → String × AliasTable
  | path p => t.resolve p
  | unique natural => t.reserve natural
  | relation p => t.resolve? p
  | column name p => ((t.column ⟨p, name⟩).1.table, (t.column ⟨p, name⟩).2)
  | dotted field => ((t.column (.ofText field)).1.table, (t.column (.ofText field)).2)

def natural? (t : AliasTable) : AliasCall → Option String
  | unique natural => some natural
  | c => c.path?.bind fun p ↦ if (t.get? p).isSome then none else some (Alias.ofPath p)

end AliasCall

/-- What a call can do: it gives back an alias that is there, or takes a free name, for a path that
has none or for nobody. -/
inductive AliasCall.Step (t : AliasTable) : AliasCall → String → AliasTable → Prop
  | known {c : AliasCall} {a : String} (natural : c.natural? t = none)
      (name : t.name? c.path? = some a) : Step t c a t
  | unique (natural : String) :
      Step t (.unique natural) (Alias.free natural t.taken) (t.reserve natural).2
  | new {c : AliasCall} {p : Path} (path : c.path? = some p) (unknown : t.get? p = none)
      (natural : c.natural? t = some (Alias.ofPath p)) :
      Step t c (Alias.free (Alias.ofPath p) t.taken)
        { (t.reserve (Alias.ofPath p)).2 with
          byPath := t.byPath ++ [(p, Alias.free (Alias.ofPath p) t.taken)] }

namespace AliasCall

variable {t : AliasTable} {c : AliasCall}

theorem perform_eq_resolve? (h : ∀ natural, c ≠ unique natural) :
    c.perform t = t.resolve? c.path? := by
  cases c with
  | unique natural => exact absurd rfl (h natural)
  | path | relation | column | dotted => rfl

theorem natural?_eq (h : ∀ natural, c ≠ unique natural) : c.natural? t =
    c.path?.bind fun p ↦ if (t.get? p).isSome then none else some (Alias.ofPath p) := by
  cases c with
  | unique natural => exact absurd rfl (h natural)
  | path | relation | column | dotted => rfl

theorem step_perform (t : AliasTable) (c : AliasCall) :
    Step t c (c.perform t).1 (c.perform t).2 := by
  by_cases hc : ∃ natural, c = unique natural
  · obtain ⟨natural, rfl⟩ := hc
    exact .unique natural
  · rw [not_exists] at hc
    have hnatural := natural?_eq (t := t) hc
    rw [perform_eq_resolve? hc]
    cases hp : c.path? with
    | none =>
      rw [hp] at hnatural
      exact .known hnatural (by rw [hp]; rfl)
    | some p =>
      rw [hp, Option.bind_some] at hnatural
      cases ht : t.get? p with
      | none =>
        have hresolve : t.resolve? (some p) = t.resolve p := rfl
        rw [hresolve, AliasTable.resolve_new ht]
        exact .new hp ht (by rw [hnatural, ht]; rfl)
      | some a =>
        have hname : t.name? c.path? = some a := by rw [hp]; exact ht
        rw [← hp, AliasTable.resolve?_eq hname]
        exact .known (by rw [hnatural, ht]; rfl) hname

namespace Step

variable {t' : AliasTable} {p : Path} {name : String}

theorem root (h : Step t c name t') : t'.root = t.root := by
  cases h with
  | known | unique | new => rfl

theorem get?_of_get? {a : String} (h : Step t c name t') (hp : t.get? p = some a) :
    t'.get? p = some a := by
  cases h with
  | known | unique => exact hp
  | new =>
    rw [AliasTable.get?_eq rfl, hp]
    rfl

theorem get?_path (h : Step t c name t') (hp : c.path? = some p) : t'.get? p = some name := by
  cases h with
  | known natural hname =>
    rw [hp] at hname
    exact hname
  | unique => simp [path?] at hp
  | new path unknown natural =>
    obtain rfl := Option.some.inj (path.symm.trans hp)
    rw [AliasTable.get?_eq rfl, unknown, Keyed.get?_cons, if_pos rfl]
    rfl

theorem firstFree {natural : String} (h : Step t c name t')
    (hnatural : c.natural? t = some natural) : Alias.FirstFree t.taken natural name := by
  cases h with
  | known known => simp [known] at hnatural
  | unique natural' =>
    obtain rfl : natural' = natural := by simpa [natural?] using hnatural
    exact Alias.firstFree_free _ _
  | new _ _ hnew =>
    obtain rfl := Option.some.inj (hnew.symm.trans hnatural)
    exact Alias.firstFree_free _ _

end Step

end AliasCall

/-- A table of aliases and all answers so far. -/
structure AliasSession where
  table : AliasTable
  answers : List (AliasCall × String)
  deriving DecidableEq, Repr

namespace AliasSession

def call (s : AliasSession) (c : AliasCall) : AliasSession :=
  ⟨(c.perform s.table).2, s.answers ++ [(c, (c.perform s.table).1)]⟩

def after (entity : String) (calls : List AliasCall) : AliasSession :=
  calls.foldl call ⟨.ofRoot entity, []⟩

/-- The names that belong to no path and not to the root. -/
def uniques (s : AliasSession) : List String :=
  s.answers.filterMap fun
    | (.unique _, name) => some name
    | _ => none

def names (s : AliasSession) : List String :=
  s.table.root :: (s.table.byPath.map (·.2) ++ s.uniques)

theorem after_concat (entity : String) (calls : List AliasCall) (c : AliasCall) :
    after entity (calls ++ [c]) = (after entity calls).call c := by
  rw [after, List.foldl_append]
  rfl

theorem after_append (entity : String) (calls calls' : List AliasCall) :
    after entity (calls ++ calls') = calls'.foldl call (after entity calls) := by
  rw [after, List.foldl_append]
  rfl

/-- The names that are taken are those that have been given, and the paths with an alias are those
that have been asked for. -/
structure Invariant (s : AliasSession) : Prop where
  taken : s.table.taken.Perm s.names
  distinct : s.names.Nodup
  paths : s.table.byPath.keys = (s.answers.filterMap (·.1.path?)).eraseDups

theorem invariant_start (entity : String) : Invariant ⟨.ofRoot entity, []⟩ where
  taken := .refl _
  distinct := List.nodup_singleton _
  paths := rfl

variable {s : AliasSession} {p : Path} {c : AliasCall} {name : String} {table : AliasTable}

theorem uniques_unique (natural : String) :
    uniques ⟨table, s.answers ++ [(.unique natural, name)]⟩ = s.uniques ++ [name] := by
  rw [uniques, List.filterMap_append]
  rfl

theorem uniques_of_ne (h : ∀ natural, c ≠ .unique natural) :
    uniques ⟨table, s.answers ++ [(c, name)]⟩ = s.uniques := by
  rw [uniques, List.filterMap_append]
  cases c with
  | unique natural => exact absurd rfl (h natural)
  | path | relation | column | dotted => exact List.append_nil _

theorem asked_concat (answers : List (AliasCall × String)) (c : AliasCall) (name : String) :
    (answers ++ [(c, name)]).filterMap (·.1.path?) =
      answers.filterMap (·.1.path?) ++ c.path?.toList := by
  rw [List.filterMap_append]
  cases hp : c.path? <;> simp [hp]

theorem Invariant.get?_isSome (h : s.Invariant) :
    (s.table.get? p).isSome ↔ p ∈ s.answers.filterMap (·.1.path?) := by
  rw [AliasTable.get?, Keyed.get?_isSome, h.paths, List.mem_eraseDups]

theorem Invariant.free_not_mem (h : s.Invariant) (natural : String) :
    Alias.free natural s.table.taken ∉ s.names :=
  fun hmem ↦ Alias.free_not_mem natural s.table.taken (h.taken.mem_iff.2 hmem)

/-- A step either finds what it asks for, or takes one name that was free. -/
theorem Invariant.step (h : s.Invariant) (hstep : c.Step s.table name table) :
    Invariant ⟨table, s.answers ++ [(c, name)]⟩ := by
  have hasked := asked_concat s.answers c name
  cases hstep with
  | known natural hname =>
    have hne : ∀ natural, c ≠ .unique natural := by
      rintro _ rfl
      simp [AliasCall.natural?] at natural
    have hnames : names ⟨s.table, s.answers ++ [(c, name)]⟩ = s.names := by
      rw [names, uniques_of_ne hne]
      rfl
    refine ⟨hnames ▸ h.taken, hnames ▸ h.distinct, ?_⟩
    rw [hasked, h.paths]
    cases hp : c.path? with
    | none => simp
    | some p =>
      rw [hp] at hname
      have hmem := h.get?_isSome.1 (Option.isSome_iff_exists.2 ⟨name, hname⟩)
      rw [Option.toList_some, eraseDups_concat, if_pos hmem]
  | unique natural =>
    have hfree := h.free_not_mem natural
    have hnames : (names ⟨(s.table.reserve natural).2,
        s.answers ++ [(.unique natural, Alias.free natural s.table.taken)]⟩).Perm
        (Alias.free natural s.table.taken :: s.names) := by
      rw [names, uniques_unique, ← List.append_assoc]
      exact ((List.perm_append_singleton _ _).cons _).trans (.swap _ _ _)
    refine ⟨(h.taken.cons _).trans hnames.symm,
      hnames.nodup_iff.2 (List.nodup_cons.2 ⟨hfree, h.distinct⟩), ?_⟩
    rw [hasked]
    exact h.paths.trans (congrArg List.eraseDups (List.append_nil _).symm)
  | @new _ p path unknown natural =>
    have hne : ∀ natural, c ≠ .unique natural := by
      rintro _ rfl
      simp [AliasCall.path?] at path
    have hfree := h.free_not_mem (Alias.ofPath p)
    have hnew : p ∉ s.answers.filterMap (·.1.path?) := by
      rw [← h.get?_isSome, unknown]
      simp
    have hnames : (names ⟨{ (s.table.reserve (Alias.ofPath p)).2 with
          byPath := s.table.byPath ++ [(p, Alias.free (Alias.ofPath p) s.table.taken)] },
        s.answers ++ [(c, Alias.free (Alias.ofPath p) s.table.taken)]⟩).Perm
        (Alias.free (Alias.ofPath p) s.table.taken :: s.names) := by
      rw [names, uniques_of_ne hne, List.map_append, List.append_assoc]
      exact (List.perm_middle.cons _).trans (.swap _ _ _)
    refine ⟨(h.taken.cons _).trans hnames.symm,
      hnames.nodup_iff.2 (List.nodup_cons.2 ⟨hfree, h.distinct⟩), ?_⟩
    rw [hasked, path, Option.toList_some, eraseDups_concat, if_neg hnew, ← h.paths]
    exact Keyed.keys_append _ _

theorem Invariant.call (h : s.Invariant) (c : AliasCall) : (s.call c).Invariant :=
  h.step (c.step_perform s.table)

theorem get?_call {a : String} (h : s.table.get? p = some a) (c : AliasCall) :
    (s.call c).table.get? p = some a :=
  (c.step_perform s.table).get?_of_get? h

theorem Invariant.firstFree (h : s.Invariant) {natural : String}
    (hnatural : c.natural? s.table = some natural) :
    Alias.FirstFree s.names natural (c.perform s.table).1 :=
  ((c.step_perform s.table).firstFree hnatural).congr h.taken

theorem invariant_after (entity : String) (calls : List AliasCall) :
    (after entity calls).Invariant := by
  induction calls using List.reverseRecOn with
  | nil => exact invariant_start entity
  | append_singleton calls c ih =>
    rw [after_concat]
    exact ih.call c

theorem answers_after (entity : String) (calls : List AliasCall) :
    (after entity calls).answers.map (·.1) = calls := by
  induction calls using List.reverseRecOn with
  | nil => rfl
  | append_singleton calls c ih =>
    rw [after_concat, call, List.map_append, ih]
    rfl

theorem root_after (entity : String) (calls : List AliasCall) :
    (after entity calls).table.root = Alias.ofEntity entity := by
  induction calls using List.reverseRecOn with
  | nil => rfl
  | append_singleton calls c ih =>
    rw [after_concat]
    exact (c.step_perform _).root.trans ih

theorem get?_foldl {a : String} (h : s.table.get? p = some a) (calls : List AliasCall) :
    (calls.foldl call s).table.get? p = some a := by
  induction calls generalizing s with
  | nil => exact h
  | cons c calls ih => exact ih (get?_call h c)

/-- What holds of the aliases of a root after some calls. -/
structure IsConsistent (entity : String) (calls : List AliasCall) : Prop where
  root : (after entity calls).table.root = Alias.ofEntity entity
  distinct : (after entity calls).names.Nodup
  /-- The paths are listed in the order in which they were first asked for. -/
  paths : (after entity calls).table.byPath.keys = (calls.filterMap AliasCall.path?).eraseDups
  /-- Each call for a path is answered with the alias that the path has in the end. -/
  kept : ∀ before c behind, calls = before ++ c :: behind → ∀ p, c.path? = some p →
    (after entity calls).table.get? p = some (c.perform (after entity before).table).1
  /-- A path with an alias has it ever after. -/
  stable : ∀ before behind, calls = before ++ behind → ∀ p a,
    (after entity before).table.get? p = some a → (after entity calls).table.get? p = some a
  /-- A new name is the first one that was free. -/
  assigned : ∀ before c behind, calls = before ++ c :: behind → ∀ natural,
    c.natural? (after entity before).table = some natural →
      Alias.FirstFree (after entity before).names natural (c.perform (after entity before).table).1

theorem isConsistent_after (entity : String) (calls : List AliasCall) :
    IsConsistent entity calls where
  root := root_after entity calls
  distinct := (invariant_after entity calls).distinct
  paths := by
    rw [(invariant_after entity calls).paths, ← answers_after entity calls, List.filterMap_map,
      answers_after]
    rfl
  kept := by
    rintro before c behind rfl p hp
    rw [after_append]
    exact get?_foldl ((c.step_perform _).get?_path hp) behind
  stable := by
    rintro before behind rfl p a h
    rw [after_append]
    exact get?_foldl h behind
  assigned := by
    rintro before c behind rfl natural hnatural
    exact (invariant_after entity before).firstFree hnatural

/-- Numbered names that are natural ones of other paths. -/
example : (after "A" [.unique "a_2", .path "a", .path "a.2", .dotted "a.x", .path "a_2"]).names =
    ["a", "a_3", "a_2_2", "a_2_3", "a_2"] := by decide +kernel

end AliasSession

end Listing
