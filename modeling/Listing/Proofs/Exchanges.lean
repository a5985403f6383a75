import Listing.Connection.Pool
import Listing.Proofs.Outcome

namespace Listing.Connection

open Wire

/-- What a session knows of a statement, or else what the server says of it. -/
def Session.describe (session : Session) (replies : Replies) (sql : String) :
    Except ServerError Description :=
  match session.described.get? sql with
  | some d => .ok d
  | none => replies.describe sql

/-- The outcome of two statements under way together, given the outcome of each alone. -/
inductive Joined {ε α β : Type} : Except ε α → Except ε β → Except ε (α × β) → Prop
  | both (a : α) (b : β) : Joined (.ok a) (.ok b) (.ok (a, b))
  | left (e : ε) (y : Except ε β) : Joined (.error e) y (.error e)
  | right (x : Except ε α) (e : ε) : Joined x (.error e) (.error e)

theorem Joined.eq_ok_iff {ε α β : Type} {x : Except ε α} {y : Except ε β} {z : Except ε (α × β)}
    (h : Joined x y z) {a : α} {b : β} : z = .ok (a, b) ↔ x = .ok a ∧ y = .ok b := by
  cases h with
  | both a' b' => simp
  | left e y => simp
  | right x e => simp

theorem Joined.of_eq_error {ε α β : Type} {x : Except ε α} {y : Except ε β}
    {z : Except ε (α × β)} (h : Joined x y z) {e : ε} (hz : z = .error e) :
    x = .error e ∨ y = .error e := by
  cases h with
  | both a b => cases hz
  | left e' y => exact .inl (by rw [Except.error.inj hz])
  | right x e' => exact .inr (by rw [Except.error.inj hz])

namespace Fetch

variable {α β : Type}

/-- What a statement comes to by its replies when nothing else is under way. -/
def conclude (replies : Replies) : Fetch α → Except QueryError α
  | done outcome => outcome
  | describing sql next => (next (replies.describe sql)).conclude replies
  | executing sql values next => (next (replies.execute sql values)).conclude replies

theorem run_describeOn (replies : Replies) (sql : String) (session : Session) :
    ((replies.describeOn sql).run session).1 = replies.describe sql := by
  unfold Replies.describeOn
  cases replies.describe sql with
  | error e => rfl
  | ok d => rfl

/-- A reply leaves a statement to end where it would have ended. -/
theorem conclude_reply (replies : Replies) (fetch : Fetch α) (session : Session) :
    ((fetch.reply replies).run session).1.conclude replies = fetch.conclude replies := by
  cases fetch with
  | done outcome => rfl
  | describing sql next =>
    exact congrArg (fun reply ↦ (next reply).conclude replies) (run_describeOn replies sql session)
  | executing sql values next => rfl

theorem run_finish (replies : Replies) (fetch : Fetch α) (session : Session) :
    ((fetch.finish replies).run session).1 = fetch.conclude replies := by
  induction fetch generalizing session with
  | done outcome => rfl
  | describing sql next ih =>
    have hreply := run_describeOn replies sql session
    exact (ih _ _).trans (congrArg (fun reply ↦ (next reply).conclude replies) hreply)
  | executing sql values next ih => exact ih _ _

/-- Both statements keep their ends through every reply, and the end of the first that is done with
an error is that of both. -/
theorem joined_both (replies : Turn → Replies) (turns : List Turn) (page : Fetch α)
    (count : Fetch β) (session : Session) :
    Joined (page.conclude (replies .page)) (count.conclude (replies .count))
      ((Fetch.both replies turns page count).run session).1 := by
  fun_induction Fetch.both replies turns page count generalizing session with
  | case1 turns count e => exact .left _ _
  | case2 turns page e => exact .right _ _
  | case3 turns page count _ _ ih =>
    rw [← conclude_reply (replies .page) page session]
    exact ih _ _
  | case4 turns page count _ _ ih =>
    rw [← conclude_reply (replies .count) count session]
    exact ih _ _
  | case5 page count _ _ =>
    rw [← run_finish (replies .page) page session, StateT.run_bind]
    obtain ⟨rows, session⟩ := (page.finish (replies .page)).run session
    cases rows with
    | error e => exact .left e _
    | ok a =>
      rw [← run_finish (replies .count) count session]
      change Joined _ _ (((count.finish (replies .count)).run session).1.map (a, ·))
      cases ((count.finish (replies .count)).run session).1 with
      | error e => exact .right _ e
      | ok b => exact .both a b

def known (session : Session) : Fetch α → Fetch α
  | describing sql next =>
    match session.described.get? sql with
    | some d => next (.ok d)
    | none => describing sql next
  | fetch => fetch

theorem run_settle (fetch : Fetch α) (session : Session) :
    fetch.settle.run session = (fetch.known session, session) := by
  cases fetch with
  | done outcome => rfl
  | describing sql next =>
    change StateT.run (match session.described.get? sql with
      | some d => pure (next (.ok d))
      | none => pure (describing sql next)) session = _
    rw [known]
    cases session.described.get? sql with
    | none => rfl
    | some d => rfl
  | executing sql values next => rfl

theorem conclude_known_describing (replies : Replies) (session : Session) (sql : String)
    (next : Except ServerError Description → Fetch α) :
    ((describing sql next).known session).conclude replies =
      (next (session.describe replies sql)).conclude replies := by
  rw [known, Session.describe]
  cases session.described.get? sql with
  | none => rfl
  | some d => rfl

end Fetch

section

variable {α : Type} (session : Session) (replies : Replies) (s : Statement)

/-- The rows that the server sends for a statement, whose columns it has described. -/
structure Yields (d : Description) (rows : List WireRow) : Prop where
  bound : checkScalars s.params = .ok ()
  described : session.describe replies s.sql = .ok d
  executed : ∃ values, encodeAll d.parameters s.params = .ok values ∧
    replies.execute s.sql values = .ok rows

/-- What a statement fails with, by the stage at which it fails. -/
inductive Fails (read : Description → List WireRow → Except QueryError α) : QueryError → Prop
  | binding {f : Failure} (hbound : checkScalars s.params = .error f) : Fails read (failed s f)
  | preparing {e : ServerError} (hbound : checkScalars s.params = .ok ())
      (hdescribed : session.describe replies s.sql = .error e) :
      Fails read (failed s (.server e))
  | encoding {d : Description} {e : ServerError} (hbound : checkScalars s.params = .ok ())
      (hdescribed : session.describe replies s.sql = .ok d)
      (hencoded : encodeAll d.parameters s.params = .error e) :
      Fails read (failed s (.server e))
  | executing {d : Description} {values : List (Option Bytes)} {e : ServerError}
      (hbound : checkScalars s.params = .ok ())
      (hdescribed : session.describe replies s.sql = .ok d)
      (hencoded : encodeAll d.parameters s.params = .ok values)
      (hexecuted : replies.execute s.sql values = .error e) : Fails read (failed s (.server e))
  | decoding {d : Description} {rows : List WireRow} {e : QueryError}
      (hrows : Yields session replies s d rows) (hread : read d rows = .error e) : Fails read e

end

section

variable {α : Type} {session : Session} {replies : Replies} {s : Statement}
  {read : Description → List WireRow → Except QueryError α}

theorem Fails.sql {e : QueryError} (h : Fails session replies s read e)
    (hread : ∀ d rows e, read d rows = .error e → e.context.sql = some s.sql) :
    e.context.sql = some s.sql := by
  cases h with
  | binding | preparing | encoding | executing => rfl
  | decoding hrows he => exact hread _ _ _ he

namespace Fetch

theorem conclude_of_yields {d : Description} {rows : List WireRow}
    (h : Yields session replies s d rows) :
    ((ofStatement s read).known session).conclude replies = read d rows := by
  obtain ⟨values, hencoded, hexecuted⟩ := h.executed
  simp only [ofStatement, h.bound, conclude_known_describing, h.described, hencoded, conclude,
    hexecuted]

/-- A statement passes one stage after another until it fails at one. -/
theorem yields_or_fails (read : Description → List WireRow → Except QueryError α) :
    (∃ d rows, Yields session replies s d rows) ∨ ∃ e, Fails session replies s read e ∧
      ((ofStatement s read).known session).conclude replies = .error e := by
  cases hbound : checkScalars s.params with
  | error f =>
    refine .inr ⟨_, .binding hbound, ?_⟩
    simp only [ofStatement, hbound, known, conclude]
  | ok _ =>
    cases hdescribed : session.describe replies s.sql with
    | error e =>
      refine .inr ⟨_, .preparing hbound hdescribed, ?_⟩
      simp only [ofStatement, hbound, conclude_known_describing, hdescribed, conclude]
    | ok d =>
      cases hencoded : encodeAll d.parameters s.params with
      | error e =>
        refine .inr ⟨_, .encoding hbound hdescribed hencoded, ?_⟩
        simp only [ofStatement, hbound, conclude_known_describing, hdescribed, hencoded, conclude]
      | ok values =>
        cases hexecuted : replies.execute s.sql values with
        | error e =>
          refine .inr ⟨_, .executing hbound hdescribed hencoded hexecuted, ?_⟩
          simp only [ofStatement, hbound, conclude_known_describing, hdescribed, hencoded,
            conclude, hexecuted]
        | ok rows => exact .inl ⟨d, rows, hbound, hdescribed, values, hencoded, hexecuted⟩

theorem conclude_eq_ok_iff {a : α} :
    ((ofStatement s read).known session).conclude replies = .ok a ↔
      ∃ d rows, Yields session replies s d rows ∧ read d rows = .ok a := by
  constructor
  · intro hok
    obtain ⟨d, rows, hrows⟩ | ⟨e, -, herror⟩ := yields_or_fails read
    · exact ⟨d, rows, hrows, (conclude_of_yields hrows).symm.trans hok⟩
    · cases herror.symm.trans hok
  · rintro ⟨d, rows, hrows, hread⟩
    exact (conclude_of_yields hrows).trans hread

theorem fails_of_conclude {e : QueryError}
    (h : ((ofStatement s read).known session).conclude replies = .error e) :
    Fails session replies s read e := by
  obtain ⟨d, rows, hrows⟩ | ⟨e', hfails, herror⟩ := yields_or_fails read
  · exact .decoding hrows ((conclude_of_yields hrows).symm.trans h)
  · rwa [Except.error.inj (h.symm.trans herror)]

end Fetch

end

theorem readPage_sql {s : Statement} {d : Description} {rows : List WireRow} {e : QueryError}
    (h : readPage s d rows = .error e) : e.context.sql = some s.sql := by
  rw [readPage] at h
  cases hrows : readRows d.columns rows with
  | error e' =>
    rw [hrows] at h
    cases h
    rfl
  | ok page =>
    rw [hrows] at h
    cases h

theorem readTotal_sql {s : Statement} {d : Description} {rows : List WireRow} {e : QueryError}
    (h : readTotal s d rows = .error e) : e.context.sql = some s.sql := by
  rw [readTotal] at h
  cases htotal : totalOf d rows with
  | error e' =>
    rw [htotal] at h
    cases h
    rfl
  | ok i =>
    rw [htotal] at h
    cases h

theorem totalOf_eq_ok_iff {d : Description} {rows : List WireRow} {i : Int} :
    totalOf d rows = .ok i ↔ ∃ name columns bytes cells, d.columns = (name, .int8) :: columns ∧
      rows = [some bytes :: cells] ∧ int? 8 bytes = some i := by
  constructor
  · intro h
    unfold totalOf at h
    split at h
    · split at h
      · next name columns bytes cells hcolumns =>
        cases hi : int? 8 bytes with
        | none =>
          rw [hi] at h
          cases h
        | some i' =>
          rw [hi] at h
          cases h
          exact ⟨name, columns, bytes, cells, hcolumns, rfl, hi⟩
      · cases h
      · cases h
    · cases h
  · rintro ⟨name, columns, bytes, cells, hcolumns, rfl, hi⟩
    simp only [totalOf, hcolumns, hi]

section

variable (session : Session) (replies : Replies) (s : Statement)

/-- The rows that the server sends for a statement, each of them read, in the order of sending. -/
def Lists (page : List Row) : Prop :=
  ∃ d rows, Yields session replies s d rows ∧
    List.Forall₂ (fun cells row ↦ readRow d.columns cells = .ok row) rows page

/-- The number in the first cell of the only row, or zero if that is negative. -/
def Counts (total : Nat) : Prop :=
  ∃ d name columns bytes cells i, Yields session replies s d [some bytes :: cells] ∧
    d.columns = (name, .int8) :: columns ∧ int? 8 bytes = some i ∧ (total : Int) = max i 0

end

theorem conclude_page_eq_ok_iff {session : Session} {replies : Replies} {s : Statement}
    {page : List Row} :
    ((Fetch.ofStatement s (readPage s)).known session).conclude replies = .ok page ↔
      Lists session replies s page := by
  simp only [Fetch.conclude_eq_ok_iff, readPage, mapError_eq_ok, readRows, mapM_eq_ok_iff, Lists]

theorem readTotal_eq_ok_iff {s : Statement} {d : Description} {rows : List WireRow} {total : Nat} :
    readTotal s d rows = .ok total ↔ ∃ i, totalOf d rows = .ok i ∧ (total : Int) = max i 0 := by
  rw [readTotal]
  cases totalOf d rows with
  | error e => simp
  | ok i =>
    simp only [Except.ok.injEq, exists_eq_left']
    omega

theorem conclude_count_eq_ok_iff {session : Session} {replies : Replies} {s : Statement}
    {total : Nat} :
    ((Fetch.ofStatement s (readTotal s)).known session).conclude replies = .ok total ↔
      Counts session replies s total := by
  simp only [Fetch.conclude_eq_ok_iff, readTotal_eq_ok_iff, totalOf_eq_ok_iff, Counts]
  constructor
  · rintro ⟨d, rows, hrows, i, ⟨name, columns, bytes, cells, hcolumns, rfl, hi⟩, htotal⟩
    exact ⟨d, name, columns, bytes, cells, i, hrows, hcolumns, hi, htotal⟩
  · rintro ⟨d, name, columns, bytes, cells, i, hrows, hcolumns, hi, htotal⟩
    exact ⟨d, _, hrows, i, ⟨name, columns, bytes, cells, hcolumns, rfl, hi⟩, htotal⟩

/-- The answer to a fetch on a session that was opened, or was not: all that was asked for, or the
error of something that failed. -/
structure IsAllOrNothing (opened : Except PoolError Session) (replies : Turn → Replies)
    (page count : Statement) (answer : Except QueryError RawPage) : Prop where
  complete (raw : RawPage) : answer = .ok raw ↔ ∃ session, opened = .ok session ∧
    Lists session (replies .page) page raw.rows ∧ Counts session (replies .count) count raw.total
  blamed (session : Session) (e : QueryError) : opened = .ok session → answer = .error e →
    Fails session (replies .page) page (readPage page) e ∧ e.context.sql = some page.sql ∨
      Fails session (replies .count) count (readTotal count) e ∧ e.context.sql = some count.sql
  unopened (e : PoolError) : opened = .error e → answer = .error (Failure.pool e).queryError

variable (acquired : StateM Pool (Except PoolError Session)) (replies : Turn → Replies)
  (turns : List Turn) (page count : Statement)

theorem joined_fetchOn (session : Session) :
    ∃ answer, ((fetchOn replies turns page count).run session).1 =
        answer.map (fun (rows, total) ↦ ⟨rows, total⟩) ∧
      Joined (((Fetch.ofStatement page (readPage page)).known session).conclude (replies .page))
        (((Fetch.ofStatement count (readTotal count)).known session).conclude (replies .count))
        answer := by
  refine ⟨_, ?_, Fetch.joined_both replies turns _ _ session⟩
  simp only [fetchOn, StateT.run_bind, Fetch.run_settle]
  rfl

theorem fetchOn_eq_ok_iff {session : Session} {raw : RawPage} :
    ((fetchOn replies turns page count).run session).1 = .ok raw ↔
      Lists session (replies .page) page raw.rows ∧
        Counts session (replies .count) count raw.total := by
  obtain ⟨answer, hanswer, hjoined⟩ := joined_fetchOn replies turns page count session
  rw [hanswer, ← conclude_page_eq_ok_iff, ← conclude_count_eq_ok_iff, ← hjoined.eq_ok_iff]
  cases answer with
  | error e => simp [Except.map]
  | ok both =>
    obtain ⟨rows, total⟩ := both
    obtain ⟨rows', total'⟩ := raw
    simp [Except.map]

theorem blamed_fetchOn {session : Session} {e : QueryError}
    (h : ((fetchOn replies turns page count).run session).1 = .error e) :
    Fails session (replies .page) page (readPage page) e ∧ e.context.sql = some page.sql ∨
      Fails session (replies .count) count (readTotal count) e ∧
        e.context.sql = some count.sql := by
  obtain ⟨answer, hanswer, hjoined⟩ := joined_fetchOn replies turns page count session
  have herror : answer = .error e := by
    cases answer with
    | error e' => rw [Except.error.inj (hanswer.symm.trans h)]
    | ok both => cases hanswer.symm.trans h
  obtain hpage | hcount := hjoined.of_eq_error herror
  · have hfails := Fetch.fails_of_conclude hpage
    exact .inl ⟨hfails, hfails.sql fun _ _ _ ↦ readPage_sql⟩
  · have hfails := Fetch.fails_of_conclude hcount
    exact .inr ⟨hfails, hfails.sql fun _ _ _ ↦ readTotal_sql⟩

namespace Pool

theorem run_fetch (pool : Pool) : ((fetch acquired replies turns page count).run pool).1 =
    match (acquired.run pool).1 with
    | .ok session => ((fetchOn replies turns page count).run session).1
    | .error e => .error (Failure.pool e).queryError := by
  simp only [fetch, withSession, StateT.run_bind]
  obtain ⟨opened, pool⟩ := acquired.run pool
  cases opened with
  | error e => rfl
  | ok session => rfl

/-- However a session is acquired, and whatever the server replies to whom and when, a fetch is
answered with all rows of the page and the total of the count, or with the error of a statement that
failed, which tells that statement; and without a session with the error of the pool. -/
theorem isAllOrNothing_fetch (pool : Pool) :
    IsAllOrNothing (acquired.run pool).1 replies page count
      ((fetch acquired replies turns page count).run pool).1 := by
  rw [run_fetch]
  cases (acquired.run pool).1 with
  | error e =>
    refine ⟨fun raw ↦ by simp, fun session e' h _ ↦ ?_, fun e' h ↦ ?_⟩
    · cases h
    · rw [Except.error.inj h]
  | ok session =>
    refine ⟨fun raw ↦ ?_, fun session' e h he ↦ ?_, fun e h ↦ ?_⟩
    · simp only [fetchOn_eq_ok_iff, Except.ok.injEq, exists_eq_left']
    · cases h
      exact blamed_fetchOn replies turns page count he
    · cases h

end Pool

end Listing.Connection
