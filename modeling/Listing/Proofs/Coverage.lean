import Listing.Proofs.Compilation
import Listing.Proofs.Identity
import Listing.Text.Utf8

namespace Listing

namespace Text

/-- Texts begin alike in bytes where they do in characters. -/
theorem utf8_prefix_iff {s s' : String} : utf8 s <+: utf8 s' ↔ s.toList <+: s'.toList := by
  constructor
  · rintro ⟨rest, hrest⟩
    have hbytes : s.toByteArray ++ rest.toByteArray = s'.toByteArray := by
      refine ByteArray.ext (Array.toList_inj.1 ?_)
      rw [utf8, utf8, toList_byteArray, toList_byteArray] at hrest
      simpa using hrest
    rw [← String.utf8Encode_toList, ← String.utf8Encode_toList] at hbytes
    exact List.isPrefix_of_utf8Encode_append_eq_utf8Encode _ hbytes
  · rintro ⟨rest, hrest⟩
    have hs' : s' = s ++ String.ofList rest := String.toList_injective (by simp [hrest])
    rw [hs', utf8_append]
    exact List.prefix_append _ _

end Text

namespace Path

def dotByte : UInt8 := 0x2E

/-- The comparison of bytes: `p` is `a`, or begins with it and has a dot there. -/
def continues (p a : Path) : Bool :=
  p == a || (decide ((Text.utf8 a).length < (Text.utf8 p).length) &&
    (Text.utf8 a).isPrefixOf (Text.utf8 p) && (Text.utf8 p)[(Text.utf8 a).length]? == some dotByte)

def cuts : List Char → List (List Char)
  | [] => [[]]
  | c :: cs => (if c = '.' then [[]] else []) ++ (cuts cs).map (c :: ·)

theorem mem_cuts {a cs : List Char} : a ∈ cuts cs ↔ a = cs ∨ a ++ ['.'] <+: cs := by
  induction cs generalizing a with
  | nil => simp [cuts]
  | cons c cs ih =>
    rw [cuts, List.mem_append, List.mem_map]
    cases a with
    | nil => by_cases hc : c = '.' <;> simp [hc, eq_comm]
    | cons d a =>
      have hfirst : d :: a ∉ (if c = '.' then [[]] else []) := by split <;> simp
      simp only [hfirst, false_or, List.cons.injEq, List.cons_append, List.cons_prefix_cons]
      constructor
      · rintro ⟨b, hb, rfl, rfl⟩
        rcases ih.1 hb with rfl | hb
        · exact .inl ⟨rfl, rfl⟩
        · exact .inr ⟨rfl, hb⟩
      · rintro (⟨rfl, rfl⟩ | ⟨rfl, h⟩)
        · exact ⟨a, ih.2 (.inl rfl), rfl, rfl⟩
        · exact ⟨a, ih.2 (.inr h), rfl, rfl⟩

theorem prefix_concat_iff {α : Type} {l m : List α} {a : α} :
    l ++ [a] <+: m ↔ l <+: m ∧ m[l.length]? = some a := by
  constructor
  · rintro ⟨rest, rfl⟩
    simp
  · rintro ⟨⟨rest, rfl⟩, h⟩
    cases rest with
    | nil => simp at h
    | cons b rest =>
      obtain rfl : b = a := by simpa using h
      exact ⟨rest, by simp⟩

theorem continues_iff {p a : Path} : p.continues a ↔ a.toList ∈ cuts p.toList := by
  have hdot : Text.utf8 "." = [dotByte] := by
    rw [Text.utf8, Text.toList_byteArray]
    rfl
  have hnext : Text.utf8 a <+: Text.utf8 p ∧ (Text.utf8 p)[(Text.utf8 a).length]? = some dotByte ↔
      a.toList ++ ['.'] <+: p.toList := by
    rw [← prefix_concat_iff, ← hdot, ← Text.utf8_append, Text.utf8_prefix_iff, String.toList_append]
    rfl
  rw [mem_cuts, ← hnext, continues]
  simp only [Bool.or_eq_true, beq_iff_eq, Bool.and_eq_true, decide_eq_true_eq,
    List.isPrefixOf_iff_prefix, String.toList_inj, and_assoc]
  refine or_congr eq_comm (and_iff_right_of_imp fun h ↦ ?_)
  exact (List.getElem?_eq_some_iff.1 h.2).1

theorem initials_map {α β : Type} (f : α → β) (l : List α) :
    initials (l.map f) = (initials l).map (List.map f) := by
  induction l with
  | nil => rfl
  | cons a l ih => simp [initials, ih, Function.comp_def]

theorem initials_splitOn (cs : List Char) :
    (initials (cs.splitOn '.')).map (['.'].intercalate ·) = cuts cs := by
  induction cs with
  | nil => rfl
  | cons c cs ih =>
    obtain ⟨part, parts, hparts⟩ := List.exists_cons_of_ne_nil (List.splitOn_ne_nil '.' cs)
    rw [List.splitOn_cons_eq_if_modifyHead, cuts, ← ih, hparts]
    by_cases hc : c = '.'
    · simp [hc, initials]
    · simp [hc, initials]

theorem ancestors_eq (p : Path) : p.ancestors = (cuts p.toList).map String.ofList := by
  rw [ancestors, segments, Text.split, initials_map, List.map_map, ← initials_splitOn, List.map_map]
  refine List.map_congr_left fun parts _ ↦ ?_
  simp [ofSegments, Text.join, Function.comp_def]

theorem continues_eq (p a : Path) : p.continues a = p.passes a := by
  rw [Bool.eq_iff_iff, ← mem_ancestors, ancestors_eq, continues_iff, List.mem_map]
  constructor
  · intro h
    exact ⟨a.toList, h, String.ofList_toList⟩
  · rintro ⟨cs, hcs, rfl⟩
    rwa [String.toList_ofList]

theorem passes_iff_text {p a : Path} : p.passes a ↔ p = a ∨ (a ++ ".").toList <+: p.toList := by
  rw [← continues_eq, continues_iff, mem_cuts, String.toList_inj, String.toList_append, eq_comm]
  rfl

end Path

namespace Plan

/-- A path is covered by the declared ones exactly when it is among the paths that they expand to,
and a plan joins exactly these. Any two texts agree on what goes on from what. -/
theorem isCovered_iff_mem_expand :
    (∀ (p : Path) (declared : List Path),
      (p.isCovered declared ↔ p ∈ Path.expand declared) ∧
      (p.isCovered declared ↔ ∃ d ∈ declared, Path.continues d p)) ∧
    (∀ p q : Path, (q.continues p ↔ p ∈ q.ancestors) ∧ q.passes p = q.continues p ∧
      q.ancestors = (Path.cuts q.toList).map String.ofList) ∧
    ∀ s name o plan, compile s name o = .ok plan →
      ∀ p : Path, p.isCovered o.relations ↔ p ∈ plan.joinPaths := by
  refine ⟨fun p declared ↦ ⟨Path.mem_expand.symm, ?_⟩, fun p q ↦ ⟨?_, ?_, Path.ancestors_eq q⟩, ?_⟩
  · simp [Path.isCovered, Path.continues_eq]
  · rw [Path.continues_eq, Path.mem_ancestors]
  · exact (Path.continues_eq q p).symm
  · intro s name o plan h p
    obtain ⟨root, t, -, hc⟩ := compile_ok h
    rw [hc.paths, Path.mem_expand]

theorem isCovered_iff_mem_expand_memberNames : ∃ p, compile groups "Group" memberNames = .ok p ∧
    "memberships" ∈ p.joinPaths ∧ "member" ∉ p.joinPaths := by
  have hplan : (compile groups "Group" memberNames).toOption.map (·.joins.length) = some 2 := by
    simp only [compile, ofChecked, JoinPlanner.plan, expand_memberNames]
    decide +kernel
  obtain ⟨p, hp, -⟩ := exists_ok_of_map hplan
  refine ⟨p, hp, ?_, ?_⟩
  · rw [← isCovered_iff_mem_expand.2.2 _ _ _ _ hp]
    decide
  · rw [← isCovered_iff_mem_expand.2.2 _ _ _ _ hp]
    decide

end Plan

end Listing
