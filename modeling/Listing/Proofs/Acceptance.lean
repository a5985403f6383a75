import Listing.Proofs.Bindings
import Listing.Proofs.References
import Listing.Proofs.Resolution

namespace Listing

namespace QueryOptions

variable {s : Schema} {root : Entity}

theorem IsJoinable.of_passes {p q : Path} (h : IsJoinable s root p) (hq : p.passes q) :
    IsJoinable s root q := by
  obtain ⟨hops, hresolved, hjoinable⟩ := h
  obtain ⟨before, hbefore, hinitial⟩ := Schema.resolvePath_of_passes hresolved hq
  exact ⟨before, hbefore, fun hop hhop ↦ hjoinable hop (hinitial.subset hhop)⟩

theorem IsValid.joinable {o : QueryOptions} (h : o.IsValid s root) :
    ∀ p ∈ Path.expand o.relations, IsJoinable s root p := by
  intro p hp
  obtain ⟨declared, hdeclared, hpasses⟩ := List.any_eq_true.1 (Path.mem_expand.1 hp)
  exact (h.relations declared hdeclared).of_passes hpasses

end QueryOptions

namespace JoinPlanner

open QueryOptions

variable {planner : JoinPlanner} {projection : Option Projection}

theorem exists_conditionOf {hop : Schema.Hop} (h : hop.relation.joinColumns ≠ [])
    (name parentName : String) (t : AliasTable) :
    ∃ condition, conditionOf hop name parentName t = .ok condition := by
  obtain ⟨keys, rest, hkeys⟩ := List.exists_cons_of_ne_nil h
  rw [conditionOf, hkeys]
  cases hop.relation.joinTable with
  | none => exact ⟨_, rfl⟩
  | some table => exact ⟨_, rfl⟩

theorem exists_joinOf {p : Path} (h : IsJoinable planner.schema planner.root p) (t : AliasTable) :
    ∃ joined, planner.joinOf projection p t = .ok joined := by
  obtain ⟨hops, hresolved, hjoinable⟩ := h
  have hne := Schema.resolvePath_ne_nil hresolved
  rw [joinOf, exists_bind_eq_ok]
  refine ⟨hops, hresolved, ?_⟩
  rw [List.getLast?_eq_getLast_of_ne_nil hne]
  dsimp only
  rw [exists_bind_eq_ok]
  obtain ⟨condition, hcondition⟩ :=
    exists_conditionOf (hjoinable (hops.getLast hne) (List.getLast_mem hne)) _ _ _
  exact ⟨condition, hcondition, _, rfl⟩

theorem exists_joinsOf {ps : List Path} (h : ∀ p ∈ ps, IsJoinable planner.schema planner.root p)
    (t : AliasTable) : ∃ joined, planner.joinsOf projection ps t = .ok joined := by
  induction ps generalizing t with
  | nil => exact ⟨_, rfl⟩
  | cons p ps ih =>
    obtain ⟨hp, hps⟩ := List.forall_mem_cons.1 h
    rw [joinsOf, exists_bind_eq_ok]
    obtain ⟨joined, hjoined⟩ := exists_joinOf hp t
    refine ⟨joined, hjoined, ?_⟩
    dsimp only
    rw [exists_bind_eq_ok]
    obtain ⟨rest, hrest⟩ := ih hps joined.2
    exact ⟨rest, hrest, _, rfl⟩

theorem exists_plan {relations : List Path}
    (h : ∀ p ∈ Path.expand relations, IsJoinable planner.schema planner.root p)
    (select : Option (List String)) (sortBy : Option String) (t : AliasTable) :
    ∃ joined, planner.plan relations select sortBy t = .ok joined := by
  rw [plan, exists_bind_eq_ok]
  obtain ⟨joined, hjoined⟩ := exists_joinsOf h t
  exact ⟨joined, hjoined, _, rfl⟩

end JoinPlanner

namespace Plan

def IsBound (p : Plan) : Prop := ∀ n ∈ p.params, n ∈ p.bindings.keys

theorem unbound_param {b : Bindings} {n : String} (h : n ∈ b.keys) :
    (Draft.param b n).filterMap Piece.unbound? = [] := by
  obtain ⟨v, hv⟩ := Option.isSome_iff_exists.1 (Keyed.get?_isSome.2 h)
  rw [Draft.param_eq hv, Draft.filterMap_separated fun _ ↦ rfl, List.flatMap_map,
    List.flatMap_eq_nil_iff]
  exact fun _ _ ↦ rfl

theorem IsBound.conjunction {p : Plan} (h : p.IsBound) :
    (Draft.conjunction p).filterMap Piece.unbound? = [] := by
  rw [Draft.filterMap_conjunction Draft.seesParams_unbound, List.flatMap_eq_nil_iff]
  exact fun n hn ↦ unbound_param (h n hn)

theorem IsBound.selectStatement {p : Plan} (h : p.IsBound) (d : Dialect) :
    p.selectStatement d = .ok ((Draft.select p).statement d) := by
  refine Draft.statement?_eq_ok.2 ⟨Draft.unbound?_eq_none.2 ?_, rfl⟩
  rw [Draft.filterMap_select Draft.seesParams_unbound, h.conjunction]
  split <;> rfl

theorem IsBound.countStatement {p : Plan} (h : p.IsBound) (d : Dialect) :
    p.countStatement d = .ok ((Draft.count d p).statement d) := by
  refine Draft.statement?_eq_ok.2 ⟨Draft.unbound?_eq_none.2 ?_, rfl⟩
  rw [Draft.filterMap_count Draft.seesParams_unbound, h.conjunction]

theorem Compiled.isBound {s : Schema} {root : Entity} {o : QueryOptions} {p : Plan}
    {t : AliasTable} (h : Compiled s root o p t) : p.IsBound := by
  intro n hn
  rwa [← h.params_eq]

theorem requireEntity_eq_ok {s : Schema} {name : String} {e : Entity} :
    s.requireEntity name = .ok e ↔ s.entity? name = some e := by
  rw [Schema.requireEntity]
  cases s.entity? name <;> simp

theorem exists_compile {s : Schema} {name : String} {root : Entity} {o : QueryOptions}
    (hroot : s.entity? name = some root) (h : o.validate s root = .ok ()) :
    ∃ p, compile s name o = .ok p := by
  have hv := QueryOptions.validate_eq_ok.1 h
  have hjoinable : ∀ p ∈ Path.expand o.relations,
      QueryOptions.IsJoinable (o.planner s root).schema (o.planner s root).root p := hv.joinable
  obtain ⟨⟨joined, t⟩, hplan⟩ :=
    JoinPlanner.exists_plan hjoinable o.select o.sortBy (.ofRoot root.name)
  exact ⟨_, compile_eq_ok.2 ⟨root, joined, t, requireEntity_eq_ok.2 hroot, hv, hplan, rfl⟩⟩

/-- Options of a known root compile unless the check refuses them, and are refused with its error.
Both statements of what compiles can be written in every dialect. -/
theorem compile_accepts (s : Schema) (name : String) (o : QueryOptions) :
    ((∃ p, compile s name o = .ok p) ↔
      ∃ root, s.entity? name = some root ∧ o.validate s root = .ok ()) ∧
    (∀ root, s.entity? name = some root → ∀ e,
      compile s name o = .error e ↔ o.validate s root = .error e) ∧
    ∀ p, compile s name o = .ok p → ∀ d,
      (∃ page, p.selectStatement d = .ok page) ∧ ∃ count, p.countStatement d = .ok count := by
  refine ⟨⟨?_, ?_⟩, ?_, ?_⟩
  · rintro ⟨p, h⟩
    obtain ⟨root, -, -, hroot, hv, -⟩ := compile_eq_ok.1 h
    exact ⟨root, requireEntity_eq_ok.1 hroot, QueryOptions.validate_eq_ok.2 hv⟩
  · rintro ⟨root, hroot, hvalid⟩
    exact exists_compile hroot hvalid
  · intro root hroot e
    cases hvalid : o.validate s root with
    | error e' =>
      have hcompile : compile s name o = .error e' := by
        rw [compile, requireEntity_eq_ok.2 hroot]
        show (o.validate s root >>= fun _ ↦ ofChecked s root o) = .error e'
        rw [hvalid]
        rfl
      simp [hcompile]
    | ok =>
      obtain ⟨p, hp⟩ := exists_compile hroot hvalid
      simp [hp]
  · intro p h d
    obtain ⟨root, t, -, hc⟩ := compile_ok h
    exact ⟨⟨_, hc.isBound.selectStatement d⟩, ⟨_, hc.isBound.countStatement d⟩⟩

def withoutJoins : QueryOptions := { byRole with relations := [] }

theorem compile_accepts_byRole :
    (∃ p, compile payments "Payment" byRole = .ok p ∧ ∀ d,
      (∃ page, p.selectStatement d = .ok page) ∧ ∃ count, p.countStatement d = .ok count) ∧
    ∃ e, compile payments "Payment" withoutJoins = .error e := by
  have hroot : payments.entity? "Payment" = some payment := rfl
  obtain ⟨haccepted, -, hwritten⟩ := compile_accepts payments "Payment" byRole
  obtain ⟨-, hrefused, -⟩ := compile_accepts payments "Payment" withoutJoins
  have hvalid : (byRole.validate payments payment).toOption.isSome := by decide +kernel
  have hinvalid : (withoutJoins.validate payments payment).toOption.isNone := by decide +kernel
  constructor
  · cases h : byRole.validate payments payment with
    | error => simp [h, Except.toOption] at hvalid
    | ok =>
      obtain ⟨p, hp⟩ := haccepted.2 ⟨payment, hroot, h⟩
      exact ⟨p, hp, hwritten p hp⟩
  · cases h : withoutJoins.validate payments payment with
    | error e => exact ⟨e, (hrefused payment hroot e).2 h⟩
    | ok => simp [h, Except.toOption] at hinvalid

end Plan

end Listing
