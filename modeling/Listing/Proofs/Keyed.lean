import Listing.Keyed
import Mathlib.Data.List.Induction
import Mathlib.Data.List.Nodup

namespace Listing.Keyed

variable {α : Type} {t : Keyed α} {k : String} {v : α}

@[simp] theorem keys_nil : keys ([] : Keyed α) = [] := rfl

@[simp] theorem keys_cons (e : String × α) (t : Keyed α) : keys (e :: t) = e.1 :: t.keys := rfl

@[simp] theorem get?_nil (k : String) : get? ([] : Keyed α) k = none := rfl

theorem get?_cons (e : String × α) (t : Keyed α) (k : String) :
    get? (e :: t) k = if k = e.1 then some e.2 else t.get? k := by
  obtain ⟨k', v⟩ := e
  rw [get?, List.lookup_cons]
  by_cases h : k = k'
  · simp [h]
  · have h' : (k == k') = false := by simpa using h
    simp [get?, h', h]

theorem get?_append (t u : Keyed α) (k : String) : get? (t ++ u) k = (t.get? k).or (u.get? k) :=
  List.lookup_append

theorem mem_of_get? (h : t.get? k = some v) : (k, v) ∈ t := by
  obtain ⟨before, after, rfl, -⟩ := List.lookup_eq_some_iff.1 h
  simp

theorem get?_isSome : (t.get? k).isSome ↔ k ∈ t.keys := by
  induction t with
  | nil => simp
  | cons e t ih =>
    rw [get?_cons, keys_cons, List.mem_cons, ← ih]
    by_cases h : k = e.1 <;> simp [h]

theorem put_of_not_mem (h : k ∉ t.keys) : t.put k v = t ++ [(k, v)] := by
  induction t with
  | nil => rfl
  | cons e t ih =>
    simp only [keys_cons, List.mem_cons, not_or] at h
    rw [put, if_neg (Ne.symm h.1), ih h.2]
    rfl

theorem get?_put (t : Keyed α) (k : String) (v : α) (x : String) :
    (t.put k v).get? x = if x = k then some v else t.get? x := by
  induction t with
  | nil => simp [put, get?_cons]
  | cons e t ih =>
    have hput : put (e :: t) k v = if e.1 = k then (k, v) :: t else e :: put t k v := rfl
    rw [hput]
    by_cases hk : e.1 = k
    · rw [if_pos hk, get?_cons, get?_cons, hk]
      split <;> rfl
    · rw [if_neg hk, get?_cons, get?_cons, ih]
      by_cases hx : x = e.1
      · simp [hx, hk]
      · simp [hx]

theorem keys_put (t : Keyed α) (k : String) (v : α) :
    (t.put k v).keys = if k ∈ t.keys then t.keys else t.keys ++ [k] := by
  induction t with
  | nil => rfl
  | cons e t ih =>
    have hput : put (e :: t) k v = if e.1 = k then (k, v) :: t else e :: put t k v := rfl
    rw [hput]
    by_cases hk : e.1 = k
    · simp [hk]
    · rw [if_neg hk, keys_cons, ih]
      by_cases hm : k ∈ keys t <;> simp [hm, Ne.symm hk]

theorem mem_keys_put {x : String} : x ∈ (t.put k v).keys ↔ x = k ∨ x ∈ t.keys := by
  rw [keys_put]
  by_cases hk : k ∈ t.keys
  · rw [if_pos hk]
    constructor
    · exact .inr
    · rintro (rfl | h)
      · exact hk
      · exact h
  · simp [hk, or_comm]

theorem nodup_keys_put (h : t.keys.Nodup) (k : String) (v : α) : (t.put k v).keys.Nodup := by
  rw [keys_put]
  by_cases hk : k ∈ t.keys
  · rwa [if_pos hk]
  · rw [if_neg hk]
    exact List.nodup_append.2 ⟨h, List.nodup_singleton k, by grind⟩

theorem nodup_keys_ofEntries (entries : List (String × α)) : (ofEntries entries).keys.Nodup := by
  induction entries using List.reverseRecOn with
  | nil => exact List.nodup_nil
  | append_singleton entries e ih =>
    rw [ofEntries, List.foldl_append]
    exact nodup_keys_put ih e.1 e.2

theorem get?_map (ks : List String) (f : String → α) (k : String) :
    get? (ks.map fun x ↦ (x, f x)) k = if k ∈ ks then some (f k) else none := by
  induction ks with
  | nil => rfl
  | cons x ks ih =>
    rw [List.map_cons, get?_cons, ih]
    by_cases hx : k = x <;> simp [hx]

theorem get?_map_of_mem {β : Type} {l : List β} {name : β → String} {f : β → α} {b : β}
    (hb : b ∈ l) (h : ∀ x ∈ l, name x = name b → x = b) :
    get? (l.map fun x ↦ (name x, f x)) (name b) = some (f b) := by
  induction l with
  | nil => simp at hb
  | cons x l ih =>
    rw [List.map_cons, get?_cons]
    by_cases hx : name b = name x
    · rw [if_pos hx, h x (by simp) hx.symm]
    · rw [if_neg hx]
      have hb' : b ∈ l := by
        rcases List.mem_cons.1 hb with rfl | hb
        · exact absurd rfl hx
        · exact hb
      exact ih hb' fun y hy ↦ h y (by simp [hy])

theorem get?_map_find? {β : Type} (l : List β) (name : β → String) (f : β → α) (k : String) :
    get? (l.map fun x ↦ (name x, f x)) k = (l.find? fun x ↦ name x == k).map f := by
  induction l with
  | nil => rfl
  | cons x l ih =>
    rw [List.map_cons, get?_cons, List.find?_cons, ih]
    by_cases hx : k = name x
    · simp [hx]
    · have hne : (name x == k) = false := by simpa using Ne.symm hx
      simp [hx, hne]

theorem put_map {ks : List String} (hks : ks.Nodup) (hk : k ∈ ks) (f : String → α) :
    put (ks.map fun x ↦ (x, f x)) k v = ks.map fun x ↦ (x, if x = k then v else f x) := by
  induction ks with
  | nil => simp at hk
  | cons x ks ih =>
    obtain ⟨hx, hks⟩ := List.nodup_cons.1 hks
    rw [List.map_cons, put, List.map_cons]
    by_cases hxk : x = k
    · rw [if_pos hxk, if_pos hxk, hxk]
      congr 1
      refine List.map_congr_left fun y hy ↦ ?_
      rw [if_neg]
      rintro rfl
      exact hx (hxk ▸ hy)
    · rw [if_neg hxk, if_neg hxk, ih hks (by simpa [Ne.symm hxk] using hk)]

theorem keys_append (t u : Keyed α) : keys (t ++ u) = t.keys ++ u.keys := List.map_append

theorem get?_of_mem (hn : t.keys.Nodup) (h : (k, v) ∈ t) : t.get? k = some v := by
  induction t with
  | nil => simp at h
  | cons e t ih =>
    obtain ⟨he, hn⟩ := List.nodup_cons.1 hn
    rw [get?_cons]
    rcases List.mem_cons.1 h with rfl | h
    · exact if_pos rfl
    · rw [if_neg, ih hn h]
      rintro rfl
      exact he (List.mem_map.2 ⟨_, h, rfl⟩)

theorem filter_key (hn : t.keys.Nodup) (k : String) :
    t.filter (fun e ↦ e.1 == k) = (t.get? k).toList.map (k, ·) := by
  induction t with
  | nil => rfl
  | cons e t ih =>
    obtain ⟨he, hn⟩ := List.nodup_cons.1 hn
    rw [List.filter_cons, get?_cons, ih hn]
    by_cases hk : e.1 = k
    · have hnone : get? t k = none := by
        rw [← Option.not_isSome_iff_eq_none, get?_isSome, ← hk]
        exact he
      simp [← hk, hk ▸ hnone]
    · simp [hk, Ne.symm hk]

theorem putAll_eq_append {entries : Keyed α} (h : (t.keys ++ entries.keys).Nodup) :
    t.putAll entries = t ++ entries := by
  induction entries generalizing t with
  | nil => simp [putAll]
  | cons e entries ih =>
    have he : e.1 ∉ t.keys := fun hmem ↦
      (List.nodup_append.1 h).2.2 _ hmem _ (by simp) rfl
    have hput : putAll t (e :: entries) = putAll (t.put e.1 e.2) entries := rfl
    rw [hput, put_of_not_mem he, ih]
    · simp
    · simpa [keys_append] using h

theorem ofEntries_eq_self {entries : List (String × α)} (h : (keys entries).Nodup) :
    ofEntries entries = entries := putAll_eq_append (t := []) h

/-- Of entries with one name the last one counts. -/
theorem get?_ofEntries (entries : List (String × α)) (k : String) :
    (ofEntries entries).get? k = get? entries.reverse k := by
  induction entries using List.reverseRecOn with
  | nil => rfl
  | append_singleton entries e ih =>
    have hput : ofEntries (entries ++ [e]) = (ofEntries entries).put e.1 e.2 := by
      rw [ofEntries, List.foldl_append]
      rfl
    rw [hput, get?_put, ih, List.reverse_append, List.reverse_singleton, List.singleton_append,
      get?_cons]

theorem mem_keys_ofEntries {entries : List (String × α)} :
    k ∈ (ofEntries entries).keys ↔ k ∈ keys entries := by
  rw [← get?_isSome, get?_ofEntries, get?_isSome, keys, List.map_reverse, List.mem_reverse]
  rfl

end Listing.Keyed
