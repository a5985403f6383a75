import Listing.Proofs.Scalars

namespace Listing

/-- The parameters that a predicate holds, also that of a list without members, which is not
written. -/
def Predicate.named : Predicate → List String
  | .inList _ _ n _ => [n]
  | q => q.params

namespace FilterCondition

def parameters (f : FilterCondition) (index : Nat) : List String :=
  match f.operator with
  | .between => [parameter index ++ "_start", parameter index ++ "_end"]
  | .isNull | .isNotNull => []
  | _ => [parameter index]

theorem compile_named {f : FilterCondition} {index : Nat} {c : ColumnRef} {q : Predicate}
    {entries : List (String × FilterValue)} (h : f.compile index c = some (q, entries)) :
    q.named = f.parameters index := by
  simp only [compile] at h
  rw [parameters]
  cases hop : f.operator <;> simp only [hop] at h ⊢
  case between =>
    obtain ⟨⟨low, high⟩, -, hp⟩ := Option.map_eq_some_iff.1 h
    obtain ⟨rfl, -⟩ := Prod.mk.inj hp
    rfl
  all_goals
    obtain ⟨rfl, -⟩ := Prod.mk.inj (Option.some.inj h)
    rfl

end FilterCondition

namespace Plan

variable {s : Schema} {root : Entity} {name : String} {o : QueryOptions} {p : Plan}
  {t : AliasTable}

/-- A predicate of a filter with its place: what the filter compiles to on some column, with its
values among those that are bound. -/
def HasPredicate (p : Plan) (f : FilterCondition × Nat) (q : Predicate) : Prop :=
  q.named = f.1.parameters f.2 ∧
    ∃ c entries, f.1.compile f.2 c = some (q, entries) ∧ entries ⊆ p.bindings

theorem Compiled.hasPredicate (h : Compiled s root o p t) :
    List.Forall₂ p.HasPredicate (o.filters.zipIdx.filter (·.1.isKept))
      ((Conditions.compiled t 0 o.filters).map (·.1)) := by
  have hcompiled := Conditions.compiled_zipIdx t 0 o.filters
  rw [List.forall₂_map_right_iff]
  refine List.forall₂_iff_zip.2 ⟨hcompiled.length_eq, fun {f c} hfc ↦ ?_⟩
  have hc := List.forall₂_zip hcompiled hfc
  refine ⟨FilterCondition.compile_named hc, t.ref f.1.target, c.2, hc, fun e he ↦ ?_⟩
  rw [h.bindings_eq]
  exact List.mem_append_left _ (List.mem_flatMap_of_mem (List.of_mem_zip hfc).2 he)

/-- The bindings of a compiled plan are what its predicates ask for, each once and in their order,
and the values of its count are those of the bindings. -/
theorem bindings_of_compile (h : compile s name o = .ok p) :
    p.bindings.keys = p.predicates.flatMap Predicate.params ∧ p.bindings.keys.Nodup ∧
    (∃ filtered searched deleted, p.predicates = filtered ++ searched ++ deleted ∧
      List.Forall₂ p.HasPredicate (o.filters.zipIdx.filter (·.1.isKept)) filtered ∧
      (∀ n ∈ searched.flatMap Predicate.params, ∃ i, n = Conditions.searchParameter i) ∧
      deleted.flatMap Predicate.params = []) ∧
    ∀ d, ∃ count, p.countStatement d = .ok count ∧
      count.params = (p.bindings.map (·.2)).flatMap FilterValue.expanded := by
  obtain ⟨root, t, -, hc⟩ := compile_ok h
  refine ⟨hc.params_eq.symm, hc.keys_nodup, ⟨_, _, _, hc.predicates, hc.hasPredicate, ?_, ?_⟩, ?_⟩
  · obtain ⟨hparams, -, hsearched⟩ := Conditions.searched_params o t
    rwa [hparams]
  · exact softDelete_params root p.rootName o.withDeleted
  · intro d
    refine ⟨_, hc.isBound.countStatement d, ?_⟩
    rw [← hc.values_conjunction]
    exact Draft.filterMap_count Draft.seesParams_value d p

def numbered : QueryOptions :=
  { search := some "7", searchFields := ["id", "amount"]
    filters := [⟨"amount", .between, .int 5, none⟩, ⟨"id", .isIn, .text "1, 2", none⟩,
      ⟨"id", .notIn, .null, none⟩, ⟨"amount", .between, .list [.int 1, .int 9], none⟩] }

theorem bindings_of_compile_numbered : ∃ p, compile payments "Payment" numbered = .ok p ∧
    p.bindings.keys = ["filter_1", "filter_3_start", "filter_3_end", "search_0", "search_1"] ∧
    p.bindings.keys = p.predicates.flatMap Predicate.params ∧
    ∀ d, ∃ count, p.countStatement d = .ok count ∧ count.params.length = 6 := by
  have hkeys : (compile payments "Payment" numbered).toOption.map (fun p ↦
      (p.bindings.keys, ((p.bindings.map (·.2)).flatMap FilterValue.expanded).length)) =
      some (["filter_1", "filter_3_start", "filter_3_end", "search_0", "search_1"], 6) := by
    decide +kernel
  obtain ⟨p, hp, hv⟩ := exists_ok_of_map hkeys
  obtain ⟨hkeys, hvalues⟩ := Prod.mk.inj hv
  obtain ⟨hparams, -, -, hcount⟩ := bindings_of_compile hp
  refine ⟨p, hp, hkeys, hparams, fun d ↦ ?_⟩
  obtain ⟨count, hstatement, hvaluesOf⟩ := hcount d
  exact ⟨count, hstatement, by rw [hvaluesOf, hvalues]⟩

end Plan

end Listing
