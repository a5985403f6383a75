import Listing.Options.Build
import Listing.Proofs.Acceptance
import Listing.Proofs.Identity

namespace Listing

/-- Every error of `x` has one of the codes. -/
def FailsWith {α : Type} (codes : List ErrorCode) (x : Except QueryError α) : Prop :=
  ∀ e, x = .error e → e.code ∈ codes

namespace FailsWith

variable {α β : Type} {codes codes' : List ErrorCode} {x : Except QueryError α}

theorem of_ok {a : α} (h : x = .ok a) : FailsWith codes x := by
  rintro e he
  simp [h] at he

theorem of_error {e : QueryError} (h : e.code ∈ codes) :
    FailsWith codes (.error e : Except QueryError α) := by
  rintro e' ⟨⟩
  exact h

theorem mono (h : FailsWith codes x) (hcodes : codes ⊆ codes') : FailsWith codes' x :=
  fun e he ↦ hcodes (h e he)

theorem bind {f : α → Except QueryError β} (hx : FailsWith codes x)
    (hf : ∀ a, x = .ok a → FailsWith codes (f a)) : FailsWith codes (x >>= f) := by
  cases x with
  | error e => exact of_error (hx e rfl)
  | ok a => exact hf a rfl

theorem forM {l : List α} {f : α → Except QueryError Unit}
    (h : ∀ a ∈ l, FailsWith codes (f a)) : FailsWith codes (l.forM f) := by
  induction l with
  | nil => exact of_ok rfl
  | cons a l ih =>
    obtain ⟨ha, hl⟩ := List.forall_mem_cons.1 h
    exact bind ha fun _ _ ↦ ih hl

theorem guardThat {condition : Bool} {e : QueryError} (h : e.code ∈ codes) :
    FailsWith codes (guardThat condition e) := by
  cases condition with
  | true => exact of_ok rfl
  | false => exact of_error h

theorem whileDoing {operation : String} (h : FailsWith codes x) :
    FailsWith codes (whileDoing operation x) := by
  cases x with
  | ok a => exact of_ok rfl
  | error e =>
    have he : (e.during operation).code ∈ codes := h e rfl
    exact of_error he

end FailsWith

namespace Schema

variable {s : Schema} {root e : Entity} {p : Path}

theorem relation_of_check (h : s.check = .ok ()) (he : s.Has e) {r : Relation}
    (hr : r ∈ e.relations) :
    r.joinColumns ≠ [] ∧ ∃ target, s.entity? r.target = some target ∧ s.Has target := by
  obtain ⟨target, hsound⟩ := (check_iff_isSound.1 h).relations e he r hr
  exact ⟨hsound.paired, target, hsound.leads, r.target, Keyed.mem_of_get? hsound.leads⟩

/-- A walk from an entity of the schema goes along relations that can be joined, or comes to a name
that is no relation. -/
theorem walk_of_check (h : s.check = .ok ()) {current : Entity} (hcurrent : s.Has current)
    (paths : List Path) : FailsWith [.invalidRelation] (s.walk root current paths) ∧
      ∀ hops, s.walk root current paths = .ok hops →
        ∀ hop ∈ hops, hop.relation.joinColumns ≠ [] := by
  induction paths generalizing current with
  | nil =>
    refine ⟨.of_ok rfl, ?_⟩
    rintro hops ⟨⟩
    simp
  | cons p paths ih =>
    rw [walk]
    cases hr : current.relation? p.leaf with
    | none => exact ⟨.of_error List.mem_cons_self, by simp⟩
    | some r =>
      obtain ⟨hjoin, target, htarget, hmem⟩ :=
        relation_of_check h hcurrent (List.mem_of_find?_eq_some hr)
      obtain ⟨hfails, hjoins⟩ := ih hmem
      simp only [htarget]
      refine ⟨hfails.bind fun hops _ ↦ .of_ok rfl, fun hops hok ↦ ?_⟩
      obtain ⟨rest, hrest, hok⟩ := bind_eq_ok.1 hok
      obtain rfl := pure_eq_ok.1 hok
      exact List.forall_mem_cons.2 ⟨hjoin, hjoins rest hrest⟩

theorem resolvePath_failsWith (h : s.check = .ok ()) (hroot : s.Has root) (p : Path) :
    FailsWith [.invalidRelation] (s.resolvePath root p) := by
  rw [resolvePath]
  split
  · exact (walk_of_check h hroot _).1
  · exact .of_error List.mem_cons_self

theorem isJoinable_of_resolvePath (h : s.check = .ok ()) (hroot : s.Has root) {hops : List Hop}
    (hp : s.resolvePath root p = .ok hops) : QueryOptions.IsJoinable s root p :=
  ⟨hops, hp, (walk_of_check h hroot _).2 hops (resolvePath_eq_ok.1 hp).2⟩

theorem ownerOf_failsWith (h : s.check = .ok ()) (hroot : s.Has root) (f : Field) :
    FailsWith [.invalidRelation] (s.ownerOf root f) := by
  rw [ownerOf]
  cases f.relation with
  | none => exact .of_ok rfl
  | some p => exact (resolvePath_failsWith h hroot p).bind fun _ _ ↦ .of_ok rfl

end Schema

namespace QueryOptions

variable {s : Schema} {root : Entity} {codes : List ErrorCode}

/-- What options can be blamed for. -/
def faults : List ErrorCode := [.invalidParameter, .invalidRelation, .missingRelation]

/-- The check of the fields that are sorted, searched and filtered by, which comes last. -/
def checkCompared (s : Schema) (root : Entity) (o : QueryOptions) : Except QueryError Unit := do
  whileDoing "Validating sortBy" (o.sortBy.toList.forM (checkText s root o.relations))
  whileDoing "Validating searchFields" (o.searchFields.forM (checkText s root o.relations))
  whileDoing "Validating dateField" (o.dateField.toList.forM (checkText s root o.relations))
  whileDoing "Validating filters" (o.filters.forM (checkFilter s root o.relations))

theorem checkBounds_failsWith (o : QueryOptions) : FailsWith [.invalidParameter] o.checkBounds :=
  (FailsWith.guardThat List.mem_cons_self).bind fun _ _ ↦ .guardThat List.mem_cons_self

theorem checkRelations_failsWith (h : s.check = .ok ()) (hroot : s.Has root)
    (relations : List Path) : FailsWith [.invalidRelation] (checkRelations s root relations) := by
  refine .forM fun p _ ↦ (s.resolvePath_failsWith h hroot p).whileDoing.bind fun hops hp ↦ ?_
  obtain ⟨hops', hp', hjoins⟩ := s.isJoinable_of_resolvePath h hroot (whileDoing_eq_ok.1 hp)
  obtain rfl : hops' = hops := Except.ok.inj (hp'.symm.trans (whileDoing_eq_ok.1 hp))
  refine .of_ok (forM_eq_ok.2 fun hop hhop ↦ guardThat_eq_ok.2 ?_)
  simpa using hjoins hop hhop

section

variable (howner : ∀ f, FailsWith codes (s.ownerOf root f)) (hrelation : .invalidRelation ∈ codes)

include howner hrelation

theorem checkSelected_failsWith (field : String) : FailsWith codes (checkSelected s root field) :=
  (howner _).bind fun _ _ ↦ .guardThat hrelation

theorem checkSelect_failsWith (hmissing : .missingRelation ∈ codes) (o : QueryOptions) :
    FailsWith codes (checkSelect s root o) := by
  rw [checkSelect]
  cases o.select with
  | none => exact .of_ok rfl
  | some fields =>
    refine FailsWith.bind (.guardThat hmissing) fun _ _ ↦ .forM fun f _ ↦ ?_
    exact checkSelected_failsWith howner hrelation f

theorem checkField_failsWith (declared : List Path) (f : Field) (shown : String) :
    FailsWith codes (checkField s root declared f shown) := by
  have hfield : FailsWith codes (s.ownerOf root f >>= fun e ↦
      guardThat (e.hasColumn f.column) ((unknownColumn shown e).onModel root.name)) :=
    (howner f).bind fun _ _ ↦ .guardThat hrelation
  rw [checkField]
  cases f.relation with
  | none => exact hfield
  | some p => exact (FailsWith.guardThat hrelation).bind fun _ _ ↦ hfield

theorem checkFilter_failsWith (declared : List Path) (f : FilterCondition) :
    FailsWith codes (checkFilter s root declared f) := by
  rw [checkFilter]
  cases f.relation with
  | none => exact checkField_failsWith howner hrelation declared _ _
  | some p => exact checkField_failsWith howner hrelation declared _ _

theorem checkCompared_failsWith (o : QueryOptions) :
    FailsWith codes (o.checkCompared s root) := by
  have hfield (field : String) : FailsWith codes (checkText s root o.relations field) :=
    checkField_failsWith howner hrelation o.relations _ _
  refine (FailsWith.forM fun f _ ↦ hfield f).whileDoing.bind fun _ _ ↦ ?_
  refine (FailsWith.forM fun f _ ↦ hfield f).whileDoing.bind fun _ _ ↦ ?_
  refine (FailsWith.forM fun f _ ↦ hfield f).whileDoing.bind fun _ _ ↦ ?_
  exact (FailsWith.forM fun f _ ↦
    checkFilter_failsWith howner hrelation o.relations f).whileDoing

end

theorem validate_failsWith (h : s.check = .ok ()) (hroot : s.Has root) (o : QueryOptions) :
    FailsWith faults (o.validate s root) := by
  have howner (f : Field) : FailsWith faults (s.ownerOf root f) :=
    (s.ownerOf_failsWith h hroot f).mono (by decide)
  have hrelation : .invalidRelation ∈ faults := by decide
  refine (o.checkBounds_failsWith.mono (by decide)).bind fun _ _ ↦ ?_
  have hkey : (!root.primaryKey.isEmpty) = true := by
    obtain ⟨name, hmem⟩ := hroot
    simpa using s.primaryKey_ne_nil h hmem
  refine (FailsWith.of_ok (guardThat_eq_ok.2 hkey)).bind fun _ _ ↦ ?_
  refine ((checkRelations_failsWith h hroot _).mono (by decide)).bind fun _ _ ↦ ?_
  refine (checkSelect_failsWith howner hrelation (by decide) o).bind fun _ _ ↦ ?_
  exact checkCompared_failsWith howner hrelation o

end QueryOptions

namespace JoinPlanner

variable {planner : JoinPlanner} {projection : Option Projection}

theorem joinOf_failsWith (h : planner.schema.check = .ok ())
    (hroot : planner.schema.Has planner.root) (p : Path) (t : AliasTable) :
    FailsWith [.invalidRelation] (planner.joinOf projection p t) := by
  cases hp : planner.schema.resolvePath planner.root p with
  | error e =>
    rw [joinOf, hp]
    exact .of_error (planner.schema.resolvePath_failsWith h hroot p e hp)
  | ok hops =>
    have hjoined : ∃ joined, planner.joinOf projection p t = .ok joined :=
      exists_joinOf (planner.schema.isJoinable_of_resolvePath h hroot hp) t
    obtain ⟨joined, hjoined⟩ := hjoined
    exact .of_ok hjoined

theorem joinsOf_failsWith (h : planner.schema.check = .ok ())
    (hroot : planner.schema.Has planner.root) (ps : List Path) (t : AliasTable) :
    FailsWith [.invalidRelation] (planner.joinsOf projection ps t) := by
  induction ps generalizing t with
  | nil => exact .of_ok rfl
  | cons p ps ih =>
    exact (joinOf_failsWith h hroot p t).bind fun _ _ ↦ (ih _).bind fun _ _ ↦ .of_ok rfl

theorem plan_failsWith (h : planner.schema.check = .ok ())
    (hroot : planner.schema.Has planner.root) (relations : List Path)
    (select : Option (List String)) (sortBy : Option String) (t : AliasTable) :
    FailsWith [.invalidRelation] (planner.plan relations select sortBy t) :=
  (joinsOf_failsWith h hroot _ t).bind fun _ _ ↦ .of_ok rfl

end JoinPlanner

namespace ListingRequest

theorem dateFilter_failsWith (r : ListingRequest) (config : ListingConfig) :
    FailsWith [.invalidFilterValue] (r.dateFilter config) := by
  rw [dateFilter]
  cases config.dateField with
  | none => exact .of_ok rfl
  | some field =>
    have hdate (bound : String) : FailsWith [.invalidFilterValue] (checkDate field bound) :=
      .guardThat List.mem_cons_self
    exact (FailsWith.forM fun b _ ↦ hdate b).bind fun _ _ ↦
      (FailsWith.forM fun b _ ↦ hdate b).bind fun _ _ ↦ .of_ok rfl

end ListingRequest

namespace Schema

/-- Of a schema that has passed its check no entity is ever the reason of a failure: options are
refused for their own faults, requests for these or for their dates, and joins for paths that lead
nowhere. -/
theorem failsWith_of_check {s : Schema} {name : String} {root : Entity} (h : s.check = .ok ())
    (hroot : s.entity? name = some root) :
    (∀ r config, FailsWith (.invalidFilterValue :: QueryOptions.faults)
      (QueryOptions.build s name r config)) ∧
    (∀ o : QueryOptions, FailsWith QueryOptions.faults (o.validate s root)) ∧
    (∀ o, FailsWith QueryOptions.faults (Plan.compile s name o)) ∧
    ∀ exclusion withDeleted relations select sortBy t, FailsWith [.invalidRelation]
      (JoinPlanner.plan ⟨s, root, exclusion, withDeleted⟩ relations select sortBy t) := by
  have hhas : s.Has root := ⟨name, Keyed.mem_of_get? hroot⟩
  have hvalidate (o : QueryOptions) := QueryOptions.validate_failsWith h hhas o
  have hplan (planner : JoinPlanner) (hs : planner.schema = s) (he : planner.root = root) :
      ∀ relations select sortBy t,
        FailsWith [.invalidRelation] (planner.plan relations select sortBy t) :=
    JoinPlanner.plan_failsWith (hs ▸ h) (by rw [hs, he]; exact hhas)
  have hrequired : s.requireEntity name = .ok root := Plan.requireEntity_eq_ok.2 hroot
  refine ⟨fun r config ↦ ?_, hvalidate, fun o ↦ ?_, fun _ _ ↦ hplan _ rfl rfl⟩
  · rw [QueryOptions.build, hrequired]
    refine ((r.dateFilter_failsWith config).mono (by decide)).bind fun dates _ ↦ ?_
    exact ((hvalidate _).mono (List.subset_cons_self _ _)).bind fun _ _ ↦ .of_ok rfl
  · rw [Plan.compile, hrequired]
    refine (hvalidate o).bind fun _ _ ↦ ?_
    exact ((hplan _ rfl rfl _ _ _ _).mono (by decide)).bind fun _ _ ↦ .of_ok rfl

def lostNode : QueryOptions := { relations := ["node.links.node.owner"] }

theorem failsWith_of_check_lostNode : Plan.nodes.check = .ok () ∧
    ∃ e, Plan.compile Plan.nodes "Node" lostNode = .error e ∧ e.code ∈ QueryOptions.faults := by
  have hcheck : Plan.nodes.check = .ok () := by decide +kernel
  have hroot : ∃ root, Plan.nodes.entity? "Node" = some root :=
    Option.isSome_iff_exists.1 (by decide +kernel)
  obtain ⟨root, hroot⟩ := hroot
  have hrefused : (Plan.compile Plan.nodes "Node" lostNode).toOption.isNone := by decide +kernel
  refine ⟨hcheck, ?_⟩
  cases h : Plan.compile Plan.nodes "Node" lostNode with
  | ok p => simp [h, Except.toOption] at hrefused
  | error e => exact ⟨e, rfl, (failsWith_of_check hcheck hroot).2.2.1 lostNode e h⟩

end Schema

end Listing
