import Listing.Options.Build
import Listing.Plan.Compile
import Listing.Record
import Listing.Statement.Render

namespace Listing

structure RawPage where
  rows : List Row
  total : Nat
  deriving Repr

structure Store (σ : Type) where
  dialect : Dialect
  fetch : Statement → Statement → StateM σ (Except QueryError RawPage)

/-- A plan with its two statements in one dialect. -/
structure Prepared where
  plan : Plan
  page : Statement
  count : Statement
  deriving Repr

namespace Prepared

def of (s : Schema) (d : Dialect) (root : String) (o : QueryOptions) :
    Except QueryError Prepared := do
  let plan ← Plan.compile s root o
  let page ← plan.selectStatement d
  let count ← plan.countStatement d
  return ⟨plan, page, count⟩

def finish {α : Type} (p : Prepared) (root : String) (o : QueryOptions)
    (read : Datum → Option α) (answer : Except QueryError RawPage) :
    Except QueryError (Page α) := do
  let raw ← answer.mapError fun e ↦ (e.onModel root).classify
  let data ← p.plan.decode read raw.rows
  return ⟨data, .of o.page o.limit raw.total⟩

end Prepared

namespace Store

variable {σ α : Type}

/-- One page of a listing. Nothing is fetched unless the options compile. -/
def execute (store : Store σ) (s : Schema) (root : String) (o : QueryOptions)
    (read : Datum → Option α) : StateM σ (Except QueryError (Page α)) :=
  match Prepared.of s store.dialect root o with
  | .error e => return .error e
  | .ok p => do
    let answer ← store.fetch p.page p.count
    return p.finish root o read answer

def list (store : Store σ) (s : Schema) (root : String) (r : ListingRequest)
    (config : ListingConfig) (read : Datum → Option α) :
    StateM σ (Except QueryError (Page α)) :=
  match QueryOptions.build s root r config with
  | .error e => return .error e
  | .ok o => store.execute s root o read

end Store

end Listing
