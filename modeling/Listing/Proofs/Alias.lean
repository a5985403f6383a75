import Listing.Alias
import Listing.Proofs.Keyed
import Listing.Proofs.Path
import Mathlib.Data.List.Perm.Subperm
import Std.Data.String.ToNat

namespace Listing

namespace Alias

theorem numbered_toList (natural : String) (k : Nat) :
    (numbered natural k).toList = natural.toList ++ '_' :: (toString k).toList := by
  simp [numbered]

theorem numbered_injective (natural : String) : Function.Injective (numbered natural) := by
  intro k m h
  have h' := congrArg String.toList h
  rw [numbered_toList, numbered_toList, List.append_cancel_left_eq, List.cons.injEq] at h'
  exact Nat.repr_injective (String.toList_injective h'.2)

theorem numbered_ne (natural : String) (k : Nat) : numbered natural k ≠ natural := by
  intro h
  have h' := congrArg (fun s ↦ s.toList.length) h
  simp [numbered_toList] at h'

theorem candidates_nodup (natural : String) (taken : List String) :
    (candidates natural taken).Nodup := by
  rw [candidates, List.nodup_cons]
  constructor
  · intro h
    obtain ⟨k, -, hk⟩ := List.mem_map.1 h
    exact numbered_ne natural (k + 2) hk
  · refine List.Nodup.map (fun k m h ↦ ?_) List.nodup_range
    have := numbered_injective natural h
    omega

theorem free_not_mem (natural : String) (taken : List String) : free natural taken ∉ taken := by
  have hex : ∃ c ∈ candidates natural taken, !taken.contains c := by
    by_contra hall
    have hsub : candidates natural taken ⊆ taken := by
      intro c hc
      by_contra hfree
      exact hall ⟨c, hc, by simpa using hfree⟩
    have hle := (List.subperm_of_subset (candidates_nodup natural taken) hsub).length_le
    simp only [candidates, List.length_cons, List.length_map, List.length_range] at hle
    omega
  obtain ⟨c, hc⟩ := Option.isSome_iff_exists.1 (List.find?_isSome.2 hex)
  have hfree := List.find?_some hc
  rw [free, hc]
  simpa using hfree

end Alias

namespace AliasTable

variable (t : AliasTable)

def name? : Option Path → Option String
  | none => some t.root
  | some p => t.get? p

theorem reserve_not_mem (natural : String) : (t.reserve natural).1 ∉ t.taken :=
  Alias.free_not_mem natural t.taken

variable {t}

theorem resolve?_eq {p : Option Path} {a : String} (h : t.name? p = some a) :
    t.resolve? p = (a, t) := by
  cases p with
  | none => simpa [resolve?, name?] using h
  | some p =>
    have hp : t.get? p = some a := h
    simp [resolve?, resolve, hp]

theorem get?_eq {l : Keyed String} {u : AliasTable} (h : u.byPath = t.byPath ++ l) (p : Path) :
    u.get? p = (t.get? p).or (Keyed.get? l p) := by
  rw [get?, get?, h, Keyed.get?_append]

theorem column_eq {f : Field} {a : String} (h : t.name? f.relation = some a) :
    t.column f = (⟨a, f.column⟩, t) := by
  simp [column, resolve?_eq h]

theorem resolve_new {p : Path} (h : t.get? p = none) :
    t.resolve p = ((t.reserve (Alias.ofPath p)).1,
      { (t.reserve (Alias.ofPath p)).2 with
        byPath := t.byPath ++ [(p, (t.reserve (Alias.ofPath p)).1)] }) := by
  simp [resolve, h, reserve]

end AliasTable

end Listing
