import Listing.Keyed
import Listing.Number.Binary
import Listing.Number.Range

namespace Listing

open Number

inductive Datum
  | null
  | bool (b : Bool)
  | int (i : Int)
  | float (x : Double)
  | text (s : String)
  | list (items : List Datum)
  | table (entries : List (String × Datum))
  /-- A part of a document that is well formed and yet stands for no value, such as a number that is
  too large. It does no harm where nothing looks at it. -/
  | unreadable
  deriving Repr, Inhabited

namespace Datum

def isNull : Datum → Bool
  | null => true
  | _ => false

def bool? : Datum → Option Bool
  | bool b => some b
  | _ => none

def text? : Datum → Option String
  | text s => some s
  | _ => none

def items? : Datum → Option (List Datum)
  | list items => some items
  | _ => none

def entries? : Datum → Option (List (String × Datum))
  | table entries => some entries
  | _ => none

def word? : Datum → Option Nat
  | int i => if 0 ≤ i ∧ i ≤ maxWord then some i.toNat else none
  | _ => none

def listOf? {α : Type} (read : Datum → Option α) : Datum → Option (List α)
  | list items => items.mapM read
  | _ => none

def option? {α : Type} (read : Datum → Option α) : Datum → Option (Option α)
  | null => some none
  | d => (read d).map some

/-- Entries by name; of two with one name the later is kept, in the place of the earlier. -/
def keyedOf? {α : Type} (read : Datum → Option α) : Datum → Option (Keyed α)
  | table entries => (entries.mapM fun e ↦ (read e.2).map (e.1, ·)).map Keyed.ofEntries
  | _ => none

mutual

def isReadable : Datum → Bool
  | list items => allReadable items
  | table entries => entriesReadable entries
  | unreadable => false
  | _ => true

def allReadable : List Datum → Bool
  | [] => true
  | d :: ds => d.isReadable && allReadable ds

def entriesReadable : List (String × Datum) → Bool
  | [] => true
  | (_, d) :: es => d.isReadable && entriesReadable es

end

mutual

/-- The same data with the names of every table ascending and the last of equal names kept. -/
def sorted : Datum → Datum
  | list items => list (sortedItems items)
  | table entries => table (sortedEntries [] entries)
  | d => d

def sortedItems : List Datum → List Datum
  | [] => []
  | d :: ds => d.sorted :: sortedItems ds

def sortedEntries (done : Keyed Datum) : List (String × Datum) → Keyed Datum
  | [] => done
  | (k, d) :: es => sortedEntries (done.putSorted k d.sorted) es

end

end Datum

end Listing
