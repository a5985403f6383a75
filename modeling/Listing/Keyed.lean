namespace Listing

abbrev Keyed (α : Type) := List (String × α)

namespace Keyed

variable {α : Type}

def get? (t : Keyed α) (key : String) : Option α := List.lookup key t

def put : Keyed α → String → α → Keyed α
  | [], key, value => [(key, value)]
  | (k, v) :: rest, key, value =>
    if k = key then (key, value) :: rest else (k, v) :: put rest key value

def ofEntries (entries : List (String × α)) : Keyed α :=
  entries.foldl (fun t e ↦ put t e.1 e.2) []

def putAll (t entries : Keyed α) : Keyed α := entries.foldl (fun t e ↦ put t e.1 e.2) t

def keys (t : Keyed α) : List String := t.map (·.1)

def putSorted : Keyed α → String → α → Keyed α
  | [], key, value => [(key, value)]
  | (k, v) :: rest, key, value =>
    if key < k then (key, value) :: (k, v) :: rest
    else if k = key then (key, value) :: rest
    else (k, v) :: putSorted rest key value

end Keyed

end Listing
