import Listing.Datum

namespace Listing.Datum

mutual

def same : Datum → Datum → Bool
  | null, null | unreadable, unreadable => true
  | bool b, bool b' => b == b'
  | int i, int i' => i == i'
  | float x, float x' => x == x'
  | text s, text s' => s == s'
  | list items, list items' => sameItems items items'
  | table entries, table entries' => sameEntries entries entries'
  | _, _ => false

def sameItems : List Datum → List Datum → Bool
  | [], [] => true
  | d :: ds, d' :: ds' => d.same d' && sameItems ds ds'
  | _, _ => false

def sameEntries : List (String × Datum) → List (String × Datum) → Bool
  | [], [] => true
  | (k, d) :: es, (k', d') :: es' => k == k' && d.same d' && sameEntries es es'
  | _, _ => false

end

mutual

theorem same_iff : ∀ {d d' : Datum}, d.same d' ↔ d = d'
  | null, d' => by cases d' <;> simp [same]
  | unreadable, d' => by cases d' <;> simp [same]
  | bool _, d' => by cases d' <;> simp [same]
  | int _, d' => by cases d' <;> simp [same]
  | float _, d' => by cases d' <;> simp [same]
  | text _, d' => by cases d' <;> simp [same]
  | list items, d' => by cases d' <;> simp [same, sameItems_iff]
  | table entries, d' => by cases d' <;> simp [same, sameEntries_iff]

theorem sameItems_iff : ∀ {ds ds' : List Datum}, sameItems ds ds' ↔ ds = ds'
  | [], ds' => by cases ds' <;> simp [sameItems]
  | d :: ds, ds' => by cases ds' <;> simp [sameItems, same_iff, sameItems_iff]

theorem sameEntries_iff : ∀ {es es' : List (String × Datum)}, sameEntries es es' ↔ es = es'
  | [], es' => by cases es' <;> simp [sameEntries]
  | (k, d) :: es, es' => by
    cases es' with
    | nil => simp [sameEntries]
    | cons e es' =>
      obtain ⟨k', d'⟩ := e
      simp [sameEntries, same_iff, sameEntries_iff]

end

instance : DecidableEq Datum := fun _ _ ↦ decidable_of_iff _ same_iff

end Listing.Datum
