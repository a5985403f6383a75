import Listing.Proofs.Compilation
import Listing.Proofs.Drafts
import Listing.Proofs.Keyed

namespace Listing

namespace FilterCondition

def IsParameter (index : Nat) (n : String) : Prop :=
  ∃ suffix ∈ ["", "_start", "_end"], n = parameter index ++ suffix

theorem parameter_append_toList (index : Nat) (suffix : String) :
    (parameter index ++ suffix).toList =
      "filter_".toList ++ ((toString index).toList ++ suffix.toList) := by
  simp [parameter]

def numberOf (n : String) : List Char := (n.toList.drop 7).takeWhile Char.isDigit

theorem IsParameter.numberOf_eq {index : Nat} {n : String} (h : IsParameter index n) :
    numberOf n = (toString index).toList := by
  obtain ⟨suffix, hs, rfl⟩ := h
  have hsuffix : ∀ suffix ∈ ["", "_start", "_end"], suffix.toList.takeWhile Char.isDigit = [] := by
    decide
  have hdrop : (parameter index ++ suffix).toList.drop 7 =
      (toString index).toList ++ suffix.toList := by
    rw [parameter_append_toList]
    rfl
  rw [numberOf, hdrop, List.takeWhile_append_of_pos fun _ ↦ Text.isDigit_of_mem_toString,
    hsuffix suffix hs, List.append_nil]

theorem IsParameter.index_eq {i j : Nat} {n : String} (h : IsParameter i n) (h' : IsParameter j n) :
    i = j :=
  Nat.repr_injective (String.toList_injective (h.numberOf_eq.symm.trans h'.numberOf_eq))

variable {f : FilterCondition} {index : Nat} {c : ColumnRef} {q : Predicate}
  {entries : List (String × FilterValue)}

def bound (f : FilterCondition) : List FilterValue :=
  match f.operator with
  | .like | .ilike => [f.value.containing]
  | .isIn | .notIn => if f.value.members.isEmpty then [] else [.list f.value.members]
  | .between => f.value.bounds?.toList.flatMap fun (low, high) ↦ [low, high]
  | .isNull | .isNotNull => []
  | _ => [f.value]

theorem compile_bound (f : FilterCondition) (index : Nat) (c : ColumnRef) :
    (f.compile index c).toList.flatMap (fun x ↦ x.2.map (·.2)) = f.bound := by
  simp only [compile, bound]
  cases f.operator with
  | between => cases f.value.bounds? <;> rfl
  | isIn | notIn => cases f.value.members <;> rfl
  | equals | notEquals | like | ilike | gt | gte | lt | lte | isNull | isNotNull => rfl

theorem compile_params (h : f.compile index c = some (q, entries)) :
    q.params = Keyed.keys entries ∧ (Keyed.keys entries).Nodup ∧
      ∀ n ∈ Keyed.keys entries, IsParameter index n := by
  simp only [compile] at h
  cases hop : f.operator <;> simp only [hop] at h
  case between =>
    obtain ⟨⟨low, high⟩, -, hp⟩ := Option.map_eq_some_iff.1 h
    obtain ⟨rfl, rfl⟩ := Prod.mk.inj hp
    simp [Predicate.params, Keyed.keys, IsParameter]
  case isIn | notIn =>
    obtain ⟨rfl, rfl⟩ := Prod.mk.inj (Option.some.inj h)
    cases f.value.members.isEmpty <;> simp [Predicate.params, Keyed.keys, IsParameter]
  all_goals
    obtain ⟨rfl, rfl⟩ := Prod.mk.inj (Option.some.inj h)
    simp [Predicate.params, Keyed.keys, IsParameter]

end FilterCondition

namespace Conditions

open FilterCondition

theorem compiled_bound (t : AliasTable) (index : Nat) (fs : List FilterCondition) :
    ((compiled t index fs).flatMap (·.2)).map (·.2) = fs.flatMap bound := by
  induction fs generalizing index with
  | nil => rfl
  | cons f fs ih =>
    rw [compiled_cons, List.flatMap_append, List.map_append, ih, List.map_flatMap, compile_bound]
    rfl

theorem compiled_params (t : AliasTable) (index : Nat) (fs : List FilterCondition) :
    ((compiled t index fs).map (·.1)).flatMap Predicate.params =
      Keyed.keys ((compiled t index fs).flatMap (·.2)) := by
  rw [Keyed.keys, List.flatMap_map, List.map_flatMap]
  refine List.flatMap_congr fun c hc ↦ ?_
  obtain ⟨f, -, k, hcompile⟩ := mem_compiled hc
  exact (compile_params hcompile).1

theorem compiled_keys (t : AliasTable) (index : Nat) (fs : List FilterCondition) :
    (∀ n ∈ Keyed.keys ((compiled t index fs).flatMap (·.2)), ∃ k, index ≤ k ∧ IsParameter k n) ∧
      (Keyed.keys ((compiled t index fs).flatMap (·.2))).Nodup := by
  induction fs generalizing index with
  | nil => simp [compiled]
  | cons f fs ih =>
    obtain ⟨hrest, hnodup⟩ := ih (index + 1)
    rw [compiled_cons]
    cases hc : f.compile index (t.ref f.target) with
    | none =>
      refine ⟨fun n hn ↦ ?_, hnodup⟩
      obtain ⟨k, hk, hp⟩ := hrest n hn
      exact ⟨k, by omega, hp⟩
    | some c =>
      obtain ⟨-, hfirst, hparameters⟩ := compile_params hc
      rw [Option.toList_some, List.singleton_append, List.flatMap_cons, Keyed.keys_append]
      constructor
      · intro n hn
        rcases List.mem_append.1 hn with hn | hn
        · exact ⟨index, le_rfl, hparameters n hn⟩
        · obtain ⟨k, hk, hp⟩ := hrest n hn
          exact ⟨k, by omega, hp⟩
      · -- the filters behind have larger indices, and so other parameters
        refine List.nodup_append.2 ⟨hfirst, hnodup, ?_⟩
        rintro n hn m hm rfl
        obtain ⟨k, hk, hp⟩ := hrest n hm
        have := (hparameters n hn).index_eq hp
        omega

def searchParameter (i : Nat) : String := "search_" ++ toString i

theorem searchParameter_injective : Function.Injective searchParameter := by
  intro i j h
  have h' := congrArg String.toList h
  simp only [searchParameter, String.toList_append, List.append_cancel_left_eq] at h'
  exact Nat.repr_injective (String.toList_injective h')

theorem searchParameter_ne {i index : Nat} {n : String} (h : IsParameter index n) :
    n ≠ searchParameter i := by
  obtain ⟨suffix, -, rfl⟩ := h
  intro heq
  have hhead := congrArg (fun n ↦ n.toList.head?) heq
  simp [parameter, searchParameter] at hhead

theorem searching_bindings (term : String) (columns : List ColumnRef) :
    (searching term columns).bindings = (List.range columns.length).map fun i ↦
      (searchParameter i, FilterValue.containing (.text term)) := by
  simp only [searching, List.map_map, Function.comp_def]
  refine Keyed.ofEntries_eq_self ?_
  rw [Keyed.keys, List.map_map]
  exact List.nodup_range.map searchParameter_injective

theorem searching_params (term : String) (columns : List ColumnRef) :
    (searching term columns).predicates.flatMap Predicate.params =
      (searching term columns).bindings.keys := by
  rw [searching_bindings]
  simp only [searching, List.flatMap_cons, List.flatMap_nil, List.append_nil, Predicate.params,
    Predicate.groupParams_eq, List.flatMap_map, Keyed.keys, List.map_map, Function.comp_def]
  rw [← List.map_eq_flatMap, List.map_snd_zip (by simp)]
  rfl

theorem searched_cases (o : QueryOptions) (t : AliasTable) :
    o.searched t = ⟨[], []⟩ ∨ ∃ term columns, o.searched t = searching term columns := by
  rw [QueryOptions.searched]
  cases o.search.bind Text.nonBlank? with
  | none => exact .inl rfl
  | some term =>
    by_cases h : o.searchFields = []
    · exact .inl (by simp [h])
    · exact .inr ⟨term, o.searchFields.map fun f ↦ t.ref (Field.ofText f), by simp [h]⟩

theorem searched_params (o : QueryOptions) (t : AliasTable) :
    (o.searched t).predicates.flatMap Predicate.params = (o.searched t).bindings.keys ∧
      (o.searched t).bindings.keys.Nodup ∧
      ∀ n ∈ (o.searched t).bindings.keys, ∃ i, n = searchParameter i := by
  rcases searched_cases o t with h | ⟨term, columns, h⟩
  · simp [h]
  · have hkeys : (searching term columns).bindings.keys =
        (List.range columns.length).map searchParameter := by
      rw [searching_bindings, Keyed.keys, List.map_map]
      rfl
    rw [h, searching_params, hkeys]
    refine ⟨rfl, List.nodup_range.map searchParameter_injective, fun n hn ↦ ?_⟩
    obtain ⟨i, -, rfl⟩ := List.mem_map.1 hn
    exact ⟨i, rfl⟩

theorem bound_nodup (o : QueryOptions) (t : AliasTable) :
    (Keyed.keys ((compiled t 0 o.filters).flatMap (·.2)) ++
      (o.searched t).bindings.keys).Nodup := by
  obtain ⟨hfilters, hnodup⟩ := compiled_keys t 0 o.filters
  obtain ⟨-, hsearch, hsearched⟩ := searched_params o t
  refine List.nodup_append.2 ⟨hnodup, hsearch, ?_⟩
  rintro n hn m hm rfl
  obtain ⟨k, -, hp⟩ := hfilters n hn
  obtain ⟨i, hi⟩ := hsearched n hm
  exact searchParameter_ne hp hi

end Conditions

namespace Plan

variable {s : Schema} {root : Entity} {o : QueryOptions} {p : Plan} {t : AliasTable}

/-- The plan binds what its filters bind and then what its search binds. -/
theorem assembled_bindings (root : Entity) (o : QueryOptions) (joined : JoinPlan)
    (t : AliasTable) : (assembled root o joined t).bindings =
      (Conditions.compiled t 0 o.filters).flatMap (·.2) ++ (o.searched t).bindings := by
  have hnodup := Conditions.bound_nodup o t
  rw [assembled, Keyed.putAll_eq_append (t := []), List.nil_append,
    Keyed.putAll_eq_append hnodup]
  exact (List.nodup_append.1 hnodup).1

theorem Compiled.bindings_eq (h : Compiled s root o p t) :
    p.bindings = (Conditions.compiled t 0 o.filters).flatMap (·.2) ++ (o.searched t).bindings :=
  h.bindings.trans (assembled_bindings root o ⟨[], []⟩ t)

theorem Compiled.keys_nodup (h : Compiled s root o p t) : p.bindings.keys.Nodup := by
  rw [h.bindings_eq, Keyed.keys_append]
  exact Conditions.bound_nodup o t

theorem softDelete_params (root : Entity) (name : String) (withDeleted : Bool) :
    (softDeletePredicates root name withDeleted).flatMap Predicate.params = [] := by
  rw [List.flatMap_eq_nil_iff]
  intro q hq
  obtain ⟨column, -, rfl⟩ := mem_softDeletePredicates hq
  rfl

theorem Compiled.params_eq (h : Compiled s root o p t) : p.params = p.bindings.keys := by
  rw [params, h.predicates, h.bindings_eq, Keyed.keys_append, List.flatMap_append,
    List.flatMap_append, softDelete_params, List.append_nil, Conditions.compiled_params,
    (Conditions.searched_params o t).1]

end Plan

end Listing
