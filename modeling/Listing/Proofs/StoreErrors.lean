import Listing.Execution
import Listing.Proofs.Acceptance
import Listing.Proofs.LetterCase

namespace Listing

namespace QueryError

/-- An error of the store that speaks of the shape of the query, in whatever letter case. -/
structure IsComplaint (e : QueryError) : Prop where
  query : e.code.isConfiguration = false
  connection : e.code.isConnection = false
  mentions : ∃ word ∈ ["join", "alias", "column", "relation"], Mentions e.message word

theorem classify_of_complaint {e : QueryError} (h : e.IsComplaint) : e.classify =
    ⟨.refusedByStore e.message,
      { (Cause.refusedByStore e.message).context with sql := e.context.sql },
      .listing e.cause e.context :: e.trail⟩ := by
  rw [classify, h.query, h.connection, mentionsShape_iff.2 h.mentions]
  rfl

theorem classify_of_not_complaint {e : QueryError} (h : ¬e.IsComplaint) : e.classify = e := by
  rw [classify, if_pos]
  · by_contra hno
    obtain ⟨⟨hquery, hconnection⟩, hshape⟩ : (e.code.isConfiguration = false ∧
        e.code.isConnection = false) ∧ mentionsShape e.message = true := by simpa using hno
    exact absurd ⟨hquery, hconnection, mentionsShape_iff.1 hshape⟩ h

theorem onModel_isComplaint {e : QueryError} {model : String} :
    (e.onModel model).IsComplaint ↔ e.IsComplaint :=
  ⟨fun h ↦ ⟨h.query, h.connection, h.mentions⟩, fun h ↦ ⟨h.query, h.connection, h.mentions⟩⟩

theorem classify_classify (e : QueryError) : e.classify.classify = e.classify := by
  by_cases h : e.IsComplaint
  · rw [classify_of_complaint h]
    exact classify_of_not_complaint fun h' ↦ Bool.noConfusion h'.query
  · rw [classify_of_not_complaint h, classify_of_not_complaint h]

structure IsReported (e : QueryError) (model : String) (told : QueryError) : Prop where
  sql : told.context.sql = e.context.sql
  passed : ¬e.IsComplaint → told = e.onModel model
  refused : e.IsComplaint →
    told.code = .invalidRelation ∧
      told.trail = .listing e.cause (e.onModel model).context :: e.trail
  model : told.context.model = some model ↔ ¬e.IsComplaint
  settled : told.classify = told

theorem isReported_classify (e : QueryError) (model : String) :
    e.IsReported model (e.onModel model).classify := by
  have hsettled := classify_classify (e.onModel model)
  by_cases h : e.IsComplaint
  · have hcomplaint : (e.onModel model).IsComplaint := onModel_isComplaint.2 h
    have hrefused := classify_of_complaint hcomplaint
    refine ⟨?_, (absurd h ·), fun _ ↦ ?_, ?_, hsettled⟩
    · rw [hrefused]
      rfl
    · rw [hrefused]
      exact ⟨rfl, rfl⟩
    · rw [hrefused]
      exact iff_of_false (by simp [Cause.context]) (not_not_intro h)
  · have hpassed : (e.onModel model).classify = e.onModel model :=
      classify_of_not_complaint (mt onModel_isComplaint.1 h)
    refine ⟨?_, fun _ ↦ hpassed, (absurd · h), ?_, hsettled⟩
    · rw [hpassed]
      rfl
    · rw [hpassed]
      exact iff_of_true rfl h

end QueryError

namespace Store

variable {σ α : Type} {store : Store σ} {s : Schema} {root : String} {o : QueryOptions}

theorem execute_of_error {p : Prepared} (hp : Prepared.of s store.dialect root o = .ok p)
    {e : QueryError} {start final : σ}
    (h : (store.fetch p.page p.count).run start = (.error e, final)) (read : Datum → Option α) :
    (store.execute s root o read).run start = (.error (e.onModel root).classify, final) := by
  have hrun : (store.fetch p.page p.count >>= fun answer ↦
      pure (p.finish root o read answer)).run start = (p.finish root o read (.error e), final) := by
    rw [StateT.run_bind, h]
    rfl
  rw [execute, hp]
  exact hrun

theorem exists_prepared {p : Plan} (h : Plan.compile s root o = .ok p) (d : Dialect) :
    ∃ page count, p.selectStatement d = .ok page ∧ p.countStatement d = .ok count ∧
      Prepared.of s d root o = .ok ⟨p, page, count⟩ := by
  obtain ⟨entity, t, -, hc⟩ := Plan.compile_ok h
  have hpage := hc.isBound.selectStatement d
  have hcount := hc.isBound.countStatement d
  exact ⟨_, _, hpage, hcount,
    bind_eq_ok.2 ⟨p, h, bind_eq_ok.2 ⟨_, hpage, bind_eq_ok.2 ⟨_, hcount, rfl⟩⟩⟩⟩

/-- Whatever error the store returns is told with its statement: as it is, on the entity, unless it
complains of the shape of the query; then as the origin of an error without the entity. -/
theorem isReported_execute {p : Plan} (h : Plan.compile s root o = .ok p)
    (read : Datum → Option α) : ∃ page count, p.selectStatement store.dialect = .ok page ∧
      p.countStatement store.dialect = .ok count ∧
      ∀ e start final, (store.fetch page count).run start = (.error e, final) →
        ∃ told, (store.execute s root o read).run start = (.error told, final) ∧
          e.IsReported root told := by
  obtain ⟨page, count, hpage, hcount, hp⟩ := exists_prepared h store.dialect
  refine ⟨page, count, hpage, hcount, fun e start final hfetch ↦ ?_⟩
  exact ⟨_, execute_of_error hp hfetch read, QueryError.isReported_classify e root⟩

def failing (e : QueryError) : Store Unit := ⟨.postgres, fun _ _ ↦ pure (.error e)⟩

def missingEntry : QueryError :=
  (QueryError.of (.database "Missing FROM-clause entry for table \"employee\" in JOIN")).inSql
    "SELECT 1"

theorem missingEntry_isComplaint : missingEntry.IsComplaint :=
  ⟨rfl, rfl, QueryError.mentionsShape_iff.1 (by decide +kernel)⟩

theorem exists_compile_payments : ∃ p, Plan.compile Plan.payments "Payment" {} = .ok p := by
  have hname : (Plan.compile Plan.payments "Payment" {}).toOption.map (·.rootName) =
      some "payment" := by
    decide +kernel
  obtain ⟨p, hp, -⟩ := exists_ok_of_map hname
  exact ⟨p, hp⟩

theorem isReported_execute_missingEntry :
    ∃ told, ((failing missingEntry).execute Plan.payments "Payment" {} some).run () =
        (.error told, ()) ∧
      told.code = .invalidRelation ∧ told.context.sql = some "SELECT 1" := by
  obtain ⟨p, hp⟩ := exists_compile_payments
  obtain ⟨page, count, -, -, hreported⟩ :=
    @isReported_execute _ _ (failing missingEntry) _ _ _ _ hp some
  obtain ⟨told, hrun, htold⟩ := hreported missingEntry () () rfl
  exact ⟨told, hrun, (htold.refused missingEntry_isComplaint).1, htold.sql⟩

/-- The entity that was attached to the error is not told of its successor. -/
theorem entity_of_missingEntry :
    ∃ told, ((failing missingEntry).execute Plan.payments "Payment" {} some).run () =
      (.error told, ()) ∧ told.context.model = none ∧ told.context.model ≠ some "Payment" := by
  obtain ⟨p, hp⟩ := exists_compile_payments
  obtain ⟨page, count, -, -, hprepared⟩ := exists_prepared hp (failing missingEntry).dialect
  have hcomplaint : (missingEntry.onModel "Payment").IsComplaint :=
    QueryError.onModel_isComplaint.2 missingEntry_isComplaint
  refine ⟨_, execute_of_error hprepared rfl some, ?_⟩
  rw [QueryError.classify_of_complaint hcomplaint]
  exact ⟨rfl, by decide⟩

end Store

end Listing
