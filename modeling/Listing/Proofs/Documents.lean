import Listing.Document
import Listing.Proofs.Keyed
import Listing.Proofs.Outcome

namespace Listing

open Number

variable {α : Type} {read : Datum → Option α} {write : α → Datum}

namespace Datum

def named (d : Datum) : Keyed Datum := d.entries?.getD []

theorem text?_text (s : String) : text? (.text s) = some s := rfl

theorem bool?_bool (b : Bool) : bool? (.bool b) = some b := rfl

theorem word?_int {n : Nat} (h : n ≤ maxWord) : word? (.int n) = some n := by
  rw [word?, if_pos ⟨Int.natCast_nonneg n, Int.ofNat_le.2 h⟩, Int.toNat_natCast]

theorem mapM_eq_map {β γ : Type} {f : β → Option γ} {g : β → γ} {l : List β}
    (h : ∀ b ∈ l, f b = some (g b)) : l.mapM f = some (l.map g) := by
  induction l with
  | nil => rfl
  | cons b l ih =>
    rw [List.forall_mem_cons] at h
    rw [List.mapM_cons, h.1, ih h.2]
    rfl

theorem mapM_map {β : Type} {f : β → Option α} {g : α → β} {l : List α}
    (h : ∀ a ∈ l, f (g a) = some a) : (l.map g).mapM f = some l := by
  rw [List.mapM_map]
  exact (mapM_eq_map h).trans (congrArg some l.map_id)

theorem listOf?_map {l : List α} (h : ∀ a ∈ l, read (write a) = some a) :
    listOf? read (.list (l.map write)) = some l := mapM_map h

/-- Nothing is written as a null, which therefore must not be read as something. -/
theorem option?_optionDatum {o : Option α} (hnull : read .null = none)
    (h : ∀ a ∈ o, read (write a) = some a) : option? read (optionDatum write o) = some o := by
  cases o with
  | none => rfl
  | some a =>
    have ha : read (write a) = some a := h a rfl
    rw [optionDatum]
    cases hd : write a with
    | null => simp [hd, hnull] at ha
    | _ => rw [option?, ← hd, ha, Option.map_some]; simp

theorem keyedOf?_entries {t : Keyed α} (h : ∀ e ∈ t, read (write e.2) = some e.2) :
    keyedOf? read (.table (t.map fun e ↦ (e.1, write e.2))) = some (.ofEntries t) := by
  have hentries : (t.map fun e ↦ (e.1, write e.2)).mapM
      (fun e ↦ (read e.2).map (e.1, ·)) = some t := by
    refine mapM_map fun e he ↦ ?_
    dsimp only
    rw [h e he, Option.map_some]
  rw [keyedOf?, hentries, Option.map_some]

theorem keyedOf?_map {t : Keyed α} (hkeys : t.keys.Nodup)
    (h : ∀ e ∈ t, read (write e.2) = some e.2) :
    keyedOf? read (.table (t.map fun e ↦ (e.1, write e.2))) = some t := by
  rw [keyedOf?_entries h, Keyed.ofEntries_eq_self hkeys]

end Datum

theorem texts?_textsDatum (ss : List String) : texts? (textsDatum ss) = some ss :=
  Datum.listOf?_map fun s _ ↦ Datum.text?_text s

theorem choice?_text (f : DocumentFormat) (s : String) : f.choice? (.text s) = some s := rfl

namespace Parts

variable {names : List PartName} {entries given : Keyed Datum} {byName : Bool} {name : String}
  {d : Datum}

/-- Each name stands once, and no part has another name. -/
structure AreNamed (names : List PartName) (entries : Keyed Datum) : Prop where
  nodup : entries.keys.Nodup
  own : ∀ part ∈ names, ∀ key ∈ entries.keys, part.matches key → key = part.name

theorem AreNamed.of_nodup (hnodup : entries.keys.Nodup)
    (hothers : ∀ part ∈ names, part.others = []) : AreNamed names entries := by
  refine ⟨hnodup, fun part hpart key _ hmatches ↦ ?_⟩
  simpa [PartName.matches, hothers part hpart, eq_comm] using hmatches

theorem entryOf?_eq (h : AreNamed names entries) {part : PartName} (hpart : part ∈ names) :
    entryOf? entries part = some ((entries.get? part.name).toList.map (part.name, ·)) := by
  have hmatches : ∀ e ∈ entries, part.matches e.1 = (e.1 == part.name) := by
    intro e he
    rw [Bool.eq_iff_iff, beq_iff_eq]
    refine ⟨h.own part hpart e.1 (List.mem_map_of_mem he), fun hname ↦ ?_⟩
    simp [PartName.matches, hname]
  have hfilter : entries.filter (fun e ↦ part.matches e.1) =
      (entries.get? part.name).toList.map (part.name, ·) := by
    rw [List.filter_congr hmatches]
    exact Keyed.filter_key h.nodup part.name
  rw [entryOf?, hfilter]
  cases entries.get? part.name <;> rfl

theorem get?_found (entries : Keyed Datum) (names : List PartName) (k : String) :
    Keyed.get? (names.flatMap fun part ↦ (entries.get? part.name).toList.map (part.name, ·)) k =
      if k ∈ names.map (·.name) then entries.get? k else none := by
  induction names with
  | nil => rfl
  | cons part names ih =>
    rw [List.flatMap_cons, Keyed.get?_append, ih, List.map_cons]
    by_cases hk : k = part.name
    · subst hk
      cases hget : entries.get? part.name with
      | none => simp
      | some d => simp [Keyed.get?_cons]
    · have hfirst : Keyed.get? ((entries.get? part.name).toList.map (part.name, ·)) k = none := by
        cases entries.get? part.name with
        | none => rfl
        | some d => simp [Keyed.get?_cons, hk]
      simp [hfirst, hk]

theorem of?_table (h : AreNamed names entries) : ∃ given, of? names (.table entries) =
    some ⟨true, given⟩ ∧ ∀ part ∈ names, given.get? part.name = entries.get? part.name := by
  refine ⟨names.flatMap fun part ↦ (entries.get? part.name).toList.map (part.name, ·), ?_,
    fun part hpart ↦ ?_⟩
  · rw [of?, Datum.mapM_eq_map fun part hpart ↦ entryOf?_eq h hpart, Option.map_some,
      ← List.flatMap_def]
  · rw [get?_found, if_pos (List.mem_map_of_mem hpart)]

theorem required_eq {a : α} (h : given.get? name = some d) (hread : read d = some a) :
    required ⟨byName, given⟩ name read = some a := by
  rw [required, h, Option.bind_some, hread]

theorem orElse_eq {default a : α} (h : given.get? name = some d) (hread : read d = some a) :
    orElse ⟨byName, given⟩ name default read = some a := by
  rw [orElse, h]
  exact hread

theorem orElse_optionDatum {o : Option α} (h : given.get? name = some (optionDatum write o))
    (hnull : read .null = none) (hread : ∀ a ∈ o, read (write a) = some a) :
    orElse ⟨byName, given⟩ name none (Datum.option? read) = some o :=
  orElse_eq h (Datum.option?_optionDatum hnull hread)

theorem optional_optionDatum {o : Option α} (h : given.get? name = some (optionDatum write o))
    (hnull : read .null = none) (hread : ∀ a ∈ o, read (write a) = some a) :
    optional ⟨byName, given⟩ name read = some o := by
  rw [optional, h]
  exact Datum.option?_optionDatum hnull hread

end Parts

end Listing
