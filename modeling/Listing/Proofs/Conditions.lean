import Listing.Filter
import Listing.Proofs.Alias
import Mathlib.Data.List.Forall2

namespace Listing

namespace AliasTable

variable {t : AliasTable}

/-- Whether the table that a field belongs to has its alias. -/
def Settles (t : AliasTable) (f : Field) : Prop := (t.name? f.relation).isSome

def ref (t : AliasTable) (f : Field) : ColumnRef := (t.column f).1

theorem column_settled {f : Field} (h : t.Settles f) : t.column f = (t.ref f, t) := by
  obtain ⟨a, ha⟩ := Option.isSome_iff_exists.1 h
  rw [ref, column_eq ha]

theorem ref_eq {f : Field} {a : String} (h : t.name? f.relation = some a) :
    t.ref f = ⟨a, f.column⟩ := by
  rw [ref, column_eq h]

theorem columns_settled {fs : List Field} (h : ∀ f ∈ fs, t.Settles f) :
    t.columns fs = (fs.map t.ref, t) := by
  induction fs with
  | nil => rfl
  | cons f fs ih =>
    rw [columns, column_settled (h f (by simp))]
    simp [ih fun g hg ↦ h g (by simp [hg])]

end AliasTable

namespace Predicate

mutual

def columns : Predicate → List ColumnRef
  | compare column _ _ | ilike column _ | inList column _ _ _ | between column _ _
  | null column _ => [column]
  | any group => groupColumns group

def groupColumns : List Predicate → List ColumnRef
  | [] => []
  | p :: ps => p.columns ++ groupColumns ps

end

theorem groupColumns_eq (group : List Predicate) : groupColumns group = group.flatMap columns := by
  induction group with
  | nil => rfl
  | cons p ps ih => simp [groupColumns, ih]

theorem mem_groupColumns {group : List Predicate} {c : ColumnRef} :
    c ∈ groupColumns group ↔ ∃ p ∈ group, c ∈ p.columns := by
  rw [groupColumns_eq, List.mem_flatMap]

end Predicate

namespace FilterCondition

def target (f : FilterCondition) : Field := ⟨f.relation, f.field⟩

theorem compile_columns {f : FilterCondition} {index : Nat} {column : ColumnRef} {p : Predicate}
    {entries : List (String × FilterValue)} (h : f.compile index column = some (p, entries)) :
    p.columns = [column] := by
  simp only [compile] at h
  cases hop : f.operator <;> simp only [hop] at h
  case between =>
    obtain ⟨⟨low, high⟩, -, hp⟩ := Option.map_eq_some_iff.1 h
    simp only [Prod.mk.injEq] at hp
    rw [← hp.1, Predicate.columns]
  all_goals
    simp only [Option.some.injEq, Prod.mk.injEq] at h
    rw [← h.1, Predicate.columns]

/-- Whether a filter has a predicate; a range without two bounds has none. -/
def isKept (f : FilterCondition) : Bool := f.operator != .between || f.isValidBetween

theorem compile_isSome (f : FilterCondition) (index : Nat) (column : ColumnRef) :
    (f.compile index column).isSome = f.isKept := by
  simp only [compile, isKept, isValidBetween]
  cases f.operator <;> simp

end FilterCondition

namespace Conditions

def compiled (t : AliasTable) (index : Nat) (fs : List FilterCondition) :
    List (Predicate × List (String × FilterValue)) :=
  (fs.zipIdx index).filterMap fun (f, k) ↦ f.compile k (t.ref f.target)

theorem compiled_cons (t : AliasTable) (index : Nat) (f : FilterCondition)
    (fs : List FilterCondition) : compiled t index (f :: fs) =
      (f.compile index (t.ref f.target)).toList ++ compiled t (index + 1) fs := by
  rw [compiled, List.zipIdx_cons]
  cases hc : f.compile index (t.ref f.target) with
  | none => exact List.filterMap_cons_none (by simpa using hc)
  | some c => exact List.filterMap_cons_some (by simpa using hc)

theorem mem_compiled {t : AliasTable} {index : Nat} {fs : List FilterCondition}
    {c : Predicate × List (String × FilterValue)} (h : c ∈ compiled t index fs) :
    ∃ f ∈ fs, ∃ k, f.compile k (t.ref f.target) = some c := by
  obtain ⟨⟨f, k⟩, hf, hc⟩ := List.mem_filterMap.1 h
  exact ⟨f, List.fst_mem_of_mem_zipIdx hf, k, hc⟩

theorem compiled_zipIdx (t : AliasTable) (index : Nat) (fs : List FilterCondition) :
    List.Forall₂ (fun f c ↦ f.1.compile f.2 (t.ref f.1.target) = some c)
      ((fs.zipIdx index).filter (·.1.isKept)) (compiled t index fs) := by
  induction fs generalizing index with
  | nil => exact .nil
  | cons f fs ih =>
    have hkept := f.compile_isSome index (t.ref f.target)
    rw [List.zipIdx_cons, compiled_cons]
    cases hc : f.compile index (t.ref f.target) with
    | none =>
      rw [List.filter_cons_of_neg (by simp [← hkept, hc])]
      exact ih (index + 1)
    | some c =>
      rw [List.filter_cons_of_pos (by simp [← hkept, hc])]
      exact .cons hc (ih (index + 1))

theorem compiled_forall₂ (t : AliasTable) (index : Nat) (fs : List FilterCondition) :
    List.Forall₂ (fun f q ↦ f ∈ fs ∧ ∃ k entries, f.compile k (t.ref f.target) = some (q, entries))
      (fs.filter (·.isKept)) ((compiled t index fs).map (·.1)) := by
  have hcompiled := compiled_zipIdx t index fs
  have hkept : fs.filter (·.isKept) = ((fs.zipIdx index).filter (·.1.isKept)).map (·.1) := by
    conv_lhs => rw [← List.zipIdx_map_fst index fs, List.filter_map]
    rfl
  rw [hkept, List.forall₂_map_left_iff, List.forall₂_map_right_iff]
  refine List.forall₂_iff_zip.2 ⟨hcompiled.length_eq, fun {f c} hfc ↦ ?_⟩
  exact ⟨List.fst_mem_of_mem_zipIdx (List.mem_of_mem_filter (List.of_mem_zip hfc).1), f.2, c.2,
    List.forall₂_zip hcompiled hfc⟩

theorem compileFrom_settled {t : AliasTable} {fs : List FilterCondition}
    (h : ∀ f ∈ fs, t.Settles f.target) (index : Nat) (bound : Bindings) :
    compileFrom t index bound fs =
      (⟨(compiled t index fs).map (·.1),
        bound.putAll ((compiled t index fs).flatMap (·.2))⟩, t) := by
  induction fs generalizing index bound with
  | nil => rfl
  | cons f fs ih =>
    have hf : t.column ⟨f.relation, f.field⟩ = (t.ref f.target, t) :=
      AliasTable.column_settled (h f (by simp))
    have ih' := ih fun g hg ↦ h g (by simp [hg])
    rw [compileFrom, hf, compiled_cons]
    dsimp only
    cases hc : f.compile index (t.ref f.target) with
    | none =>
      rw [ih' (index + 1) bound]
      rfl
    | some c =>
      obtain ⟨p, entries⟩ := c
      dsimp only
      rw [ih' (index + 1) (bound.putAll entries)]
      simp [Keyed.putAll]

theorem ofFilters_settled {t : AliasTable} {fs : List FilterCondition}
    (h : ∀ f ∈ fs, t.Settles f.target) :
    ofFilters fs t =
      (⟨(compiled t 0 fs).map (·.1), Keyed.putAll [] ((compiled t 0 fs).flatMap (·.2))⟩, t) :=
  compileFrom_settled h 0 []

def searching (term : String) (columns : List ColumnRef) : Conditions :=
  let params := (List.range columns.length).map fun i ↦ "search_" ++ toString i
  ⟨[.any ((columns.zip params).map fun (column, param) ↦ Predicate.compare column .like param)],
    Keyed.ofEntries (params.map fun p ↦ (p, FilterValue.containing (.text term)))⟩

theorem ofSearch_settled {t : AliasTable} {term : Option String} {fields : List String}
    (h : ∀ f ∈ fields, t.Settles (Field.ofText f)) :
    ofSearch term fields t = ((term.bind Text.nonBlank?).bind fun term ↦
      if fields = [] then none
      else some (searching term (fields.map fun f ↦ t.ref (Field.ofText f))), t) := by
  cases hterm : term.bind Text.nonBlank? with
  | none => simp [ofSearch, hterm]
  | some term =>
    cases fields with
    | nil => simp [ofSearch, hterm]
    | cons f fs =>
      have hc : t.columns ((f :: fs).map Field.ofText) =
          ((f :: fs).map (fun f ↦ t.ref (Field.ofText f)), t) := by
        rw [AliasTable.columns_settled (by simpa using h), List.map_map]
        rfl
      simp only [ofSearch, hterm, hc]
      simp [searching]

theorem searching_columns (term : String) (columns : List ColumnRef) :
    Predicate.groupColumns (searching term columns).predicates = columns := by
  simp only [searching, Predicate.groupColumns_eq, List.flatMap_cons, List.flatMap_nil,
    List.append_nil, Predicate.columns, List.flatMap_map]
  rw [← List.map_eq_flatMap, List.map_fst_zip (by simp)]

end Conditions

end Listing
