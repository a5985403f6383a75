import Listing.Json.Reader
import Listing.Json.Writer
import Listing.Proofs.NumberText

namespace Listing

namespace Datum

mutual

def isExact : Datum → Bool
  | float _ | unreadable => false
  | list items => allExact items
  | table entries => entriesExact entries
  | _ => true

def allExact : List Datum → Bool
  | [] => true
  | d :: ds => d.isExact && allExact ds

def entriesExact : List (String × Datum) → Bool
  | [] => true
  | (_, d) :: es => d.isExact && entriesExact es

end

theorem allExact_iff {ds : List Datum} : allExact ds ↔ ∀ d ∈ ds, d.isExact := by
  induction ds with
  | nil => simp [allExact]
  | cons d ds ih => simp [allExact, ih]

end Datum

namespace Json

theorem charsOf?_plain (c : Char) (us : List Unit16) :
    charsOf? (.plain c :: us) = (charsOf? us).map (c :: ·) := by
  rw [charsOf?]

theorem charsOf?_escaped {n : Nat} (hn : n < 0xD800) (us : List Unit16) :
    charsOf? (.escaped n :: us) = (charsOf? us).map (Char.ofNat n :: ·) := by
  have hhigh : isHigh n = false := by
    simp [isHigh]
    omega
  have hlow : isLow n = false := by
    simp [isLow]
    omega
  rw [charsOf?.eq_def]
  split <;> simp_all

theorem hexValueOf?_hexDigit : ∀ n < 0x20,
    hexValueOf? ['0', '0', hexDigit (n / 16), hexDigit (n % 16)] = some n := by
  decide

theorem readUnits_escape (c : Char) : ∃ u,
    (∀ cs, readUnits (escape c ++ cs) =
      (readUnits cs).map fun (us, rest) ↦ (u :: us, rest)) ∧
    ∀ us, charsOf? (u :: us) = (charsOf? us).map (c :: ·) := by
  have short {e : Char} (he : e ≠ 'u') (hc : shortEscape? e = some c) (cs : List Char) :
      readUnits (['\\', e] ++ cs) =
        (readUnits cs).map fun (us, rest) ↦ (.plain c :: us, rest) := by
    rw [List.cons_append, List.cons_append, List.nil_append, readUnits, hc]
    · cases readUnits cs <;> rfl
    · simp [he]
  rw [escape]
  split_ifs with h₁ h₂ h₃ h₄ h₅ h₆ h₇ h₈
  · exact ⟨.plain c, short (by decide) (by rw [h₁]; rfl), charsOf?_plain c⟩
  · exact ⟨.plain c, short (by decide) (by rw [h₂]; rfl), charsOf?_plain c⟩
  · exact ⟨.plain c, short (by decide) (by rw [h₃]; rfl), charsOf?_plain c⟩
  · exact ⟨.plain c, short (by decide) (by rw [h₄]; rfl), charsOf?_plain c⟩
  · exact ⟨.plain c, short (by decide) (by rw [h₅]; rfl), charsOf?_plain c⟩
  · exact ⟨.plain c, short (by decide) (by rw [h₆]; rfl), charsOf?_plain c⟩
  · exact ⟨.plain c, short (by decide) (by rw [h₇]; rfl), charsOf?_plain c⟩
  · refine ⟨.escaped c.toNat, fun cs ↦ ?_, fun us ↦ ?_⟩
    · simp only [List.cons_append, List.nil_append]
      rw [readUnits, hexValueOf?_hexDigit c.toNat h₈]
      cases readUnits cs <;> rfl
    · rw [charsOf?_escaped (by omega), Char.ofNat_toNat]
  · refine ⟨.plain c, fun cs ↦ ?_, charsOf?_plain c⟩
    rw [List.singleton_append, readUnits, if_neg (by simp [h₂, h₈])]
    · simp [h₁]
    · simp [h₂]
    · simp [h₂]

theorem readUnits_text (cs rest : List Char) : ∃ us,
    readUnits (cs.flatMap escape ++ '"' :: rest) = some (us, rest) ∧ charsOf? us = some cs := by
  induction cs with
  | nil => exact ⟨[], by simp [readUnits], rfl⟩
  | cons c cs ih =>
    obtain ⟨us, hread, hchars⟩ := ih
    obtain ⟨u, hu, hc⟩ := readUnits_escape c
    refine ⟨u :: us, ?_, by rw [hc, hchars]; rfl⟩
    rw [List.flatMap_cons, List.append_assoc, hu, hread]
    rfl

theorem readText_writeText (s : String) (rest : List Char) :
    readText ((writeText s).tail ++ rest) = some (some s, rest) := by
  obtain ⟨us, hread, hchars⟩ := readUnits_text s.toList rest
  simp [writeText, readText, hread, hchars]

theorem writeText_append_inj {s s' : String} {r r' : List Char}
    (h : writeText s ++ r = writeText s' ++ r') : s = s' ∧ r = r' := by
  have htail := congrArg (fun cs ↦ readText cs.tail) h
  have hs : (writeText s ++ r).tail = (writeText s).tail ++ r := rfl
  have hs' : (writeText s' ++ r').tail = (writeText s').tail ++ r' := rfl
  simpa only [hs, hs', readText_writeText, Option.some.injEq, Prod.mk.injEq] using htail

open Number (Ends isNumeric)

/-- The texts are the same, from which the data are known when they are exact. -/
structure SameText (d d' : Datum) : Prop where
  write : write d = write d'
  eq : d.isExact → d'.isExact → d = d'

theorem SameText.refl (d : Datum) : SameText d d := ⟨rfl, fun _ _ ↦ rfl⟩

theorem SameText.items {ds ds' : List Datum} (h : List.Forall₂ SameText ds ds') :
    writeItems ds = writeItems ds' ∧ (Datum.allExact ds → Datum.allExact ds' → ds = ds') := by
  induction h with
  | nil => exact ⟨rfl, fun _ _ ↦ rfl⟩
  | cons hd _ ih =>
    refine ⟨by rw [writeItems, writeItems, hd.write, ih.1], fun hexact hexact' ↦ ?_⟩
    simp only [Datum.allExact, Bool.and_eq_true] at hexact hexact'
    rw [hd.eq hexact.1 hexact'.1, ih.2 hexact.2 hexact'.2]

def SameEntry (e e' : String × Datum) : Prop := e.1 = e'.1 ∧ SameText e.2 e'.2

theorem SameText.entries {es es' : List (String × Datum)} (h : List.Forall₂ SameEntry es es') :
    writeEntries es = writeEntries es' ∧
      (Datum.entriesExact es → Datum.entriesExact es' → es = es') := by
  induction h with
  | nil => exact ⟨rfl, fun _ _ ↦ rfl⟩
  | @cons e e' es es' he _ ih =>
    obtain ⟨k, d⟩ := e
    obtain ⟨k', d'⟩ := e'
    obtain ⟨rfl, hd⟩ : k = k' ∧ SameText d d' := he
    refine ⟨by rw [writeEntries, writeEntries, hd.write, ih.1], fun hexact hexact' ↦ ?_⟩
    simp only [Datum.entriesExact, Bool.and_eq_true] at hexact hexact'
    rw [hd.eq hexact.1 hexact'.1, ih.2 hexact.2 hexact'.2]

theorem SameText.list {ds ds' : List Datum} (h : List.Forall₂ SameText ds ds') :
    SameText (.list ds) (.list ds') := by
  refine ⟨?_, fun hd hd' ↦ congrArg Datum.list ((items h).2 hd hd')⟩
  cases h with
  | nil => rfl
  | cons hd hds => rw [Json.write, Json.write, hd.write, (items hds).1]

theorem SameText.table {es es' : List (String × Datum)} (h : List.Forall₂ SameEntry es es') :
    SameText (.table es) (.table es') := by
  refine ⟨?_, fun hd hd' ↦ congrArg Datum.table ((entries h).2 hd hd')⟩
  cases h with
  | nil => rfl
  | @cons e e' es es' he hes =>
    obtain ⟨k, d⟩ := e
    obtain ⟨k', d'⟩ := e'
    obtain ⟨rfl, hd⟩ : k = k' ∧ SameText d d' := he
    rw [Json.write, Json.write, hd.write, (entries hes).1]

def leadOf (c : Char) : Char := if isNumeric c then '-' else c

def lead : Datum → Char
  | .null | .unreadable => 'n'
  | .bool true => 't'
  | .bool false => 'f'
  | .int _ => '-'
  | .float x => if x.jsonText?.isSome then '-' else 'n'
  | .text _ => '"'
  | .list _ => '['
  | .table _ => '\x7b'

theorem lead_mem (d : Datum) : lead d ∈ ['n', 't', 'f', '-', '"', '[', '\x7b'] := by
  unfold lead
  split <;> try split
  all_goals decide

theorem lead_float (x : Number.Double) : lead (.float x) = 'n' ∨ lead (.float x) = '-' := by
  rw [lead]
  split_ifs
  · exact .inr rfl
  · exact .inl rfl

theorem leadOf_numeric {cs : List Char} (h : cs ≠ [] ∧ ∀ c ∈ cs, isNumeric c) :
    ∃ c cs', cs = c :: cs' ∧ leadOf c = '-' := by
  obtain ⟨c, cs', rfl⟩ := List.exists_cons_of_ne_nil h.1
  exact ⟨c, cs', rfl, if_pos (h.2 c (by simp))⟩

theorem write_lead (d : Datum) : ∃ c cs, write d = c :: cs ∧ leadOf c = lead d := by
  cases d with
  | null => exact ⟨'n', ['u', 'l', 'l'], rfl, rfl⟩
  | bool b =>
    cases b with
    | true => exact ⟨'t', ['r', 'u', 'e'], rfl, rfl⟩
    | false => exact ⟨'f', ['a', 'l', 's', 'e'], rfl, rfl⟩
  | int i => exact leadOf_numeric (Number.int_numeric i)
  | float x =>
    rw [write, lead]
    cases hx : x.jsonText? with
    | none => exact ⟨'n', ['u', 'l', 'l'], rfl, rfl⟩
    | some cs => exact leadOf_numeric (Number.jsonText?_numeric hx)
  | text s => exact ⟨_, _, rfl, rfl⟩
  | list ds =>
    cases ds with
    | nil => exact ⟨_, _, rfl, rfl⟩
    | cons d ds => exact ⟨_, _, rfl, rfl⟩
  | table es =>
    cases es with
    | nil => exact ⟨_, _, rfl, rfl⟩
    | cons e es => exact ⟨_, _, rfl, rfl⟩
  | unreadable => exact ⟨'n', ['u', 'l', 'l'], rfl, rfl⟩

theorem lead_eq {d d' : Datum} {r r' : List Char} (h : write d ++ r = write d' ++ r') :
    lead d = lead d' := by
  obtain ⟨c, cs, hc, hlead⟩ := write_lead d
  obtain ⟨c', cs', hc', hlead'⟩ := write_lead d'
  rw [hc, hc'] at h
  rw [← hlead, ← hlead', (List.cons.inj h).1]

theorem write_of_lead_null {d : Datum} (h : lead d = 'n') :
    write d = ['n', 'u', 'l', 'l'] ∧ (d.isExact → d = .null) := by
  cases d with
  | null => exact ⟨rfl, fun _ ↦ rfl⟩
  | unreadable => exact ⟨rfl, fun hexact ↦ by simp [Datum.isExact] at hexact⟩
  | float x =>
    refine ⟨?_, fun hexact ↦ by simp [Datum.isExact] at hexact⟩
    rw [write]
    cases hx : x.jsonText? with
    | none => rfl
    | some cs => simp [lead, hx] at h
  | bool b => cases b <;> simp [lead] at h
  | int i | text s | list ds | table es => simp [lead] at h

theorem write_of_lead_number {d : Datum} (h : lead d = '-') :
    (∀ c ∈ write d, isNumeric c) ∧ (d.isExact → ∃ i, d = .int i) := by
  cases d with
  | int i => exact ⟨(Number.int_numeric i).2, fun _ ↦ ⟨i, rfl⟩⟩
  | float x =>
    refine ⟨?_, fun hexact ↦ by simp [Datum.isExact] at hexact⟩
    rw [write]
    cases hx : x.jsonText? with
    | none => simp [lead, hx] at h
    | some cs => exact (Number.jsonText?_numeric hx).2
  | bool b => cases b <;> simp [lead] at h
  | null | unreadable | text s | list ds | table es => simp [lead] at h

theorem sameText_of_null {d d' : Datum} {r r' : List Char} (h : lead d = 'n') (h' : lead d' = 'n')
    (heq : write d ++ r = write d' ++ r') : SameText d d' ∧ r = r' := by
  obtain ⟨hw, hnull⟩ := write_of_lead_null h
  obtain ⟨hw', hnull'⟩ := write_of_lead_null h'
  rw [hw, hw'] at heq
  exact ⟨⟨hw.trans hw'.symm, fun hd hd' ↦ (hnull hd).trans (hnull' hd').symm⟩,
    List.append_cancel_left heq⟩

theorem sameText_of_number {d d' : Datum} {r r' : List Char} (h : lead d = '-')
    (h' : lead d' = '-') (hr : Ends r) (hr' : Ends r') (heq : write d ++ r = write d' ++ r') :
    SameText d d' ∧ r = r' := by
  obtain ⟨hnumeric, hint⟩ := write_of_lead_number h
  obtain ⟨hnumeric', hint'⟩ := write_of_lead_number h'
  obtain ⟨hwrite, hrest⟩ := Number.numeric_append_inj hnumeric hnumeric' hr hr' heq
  refine ⟨⟨hwrite, fun hd hd' ↦ ?_⟩, hrest⟩
  obtain ⟨i, rfl⟩ := hint hd
  obtain ⟨i', rfl⟩ := hint' hd'
  exact congrArg Datum.int (Int.repr_injective (String.toList_inj.1 hwrite))

theorem ends_of_lead {c : Char} (hc : isNumeric c = false) (r : List Char) : Ends (c :: r) := by
  rintro x ⟨⟩
  exact hc

theorem ends_items (ds : List Datum) (r : List Char) : Ends (writeItems ds ++ r) := by
  cases ds with
  | nil => exact ends_of_lead (by decide) _
  | cons d ds => exact ends_of_lead (by decide) _

theorem ends_entries (es : List (String × Datum)) (r : List Char) :
    Ends (writeEntries es ++ r) := by
  cases es with
  | nil => exact ends_of_lead (by decide) _
  | cons e es => exact ends_of_lead (by decide) _

theorem write_ne_close (d : Datum) {r r' : List Char} : write d ++ r ≠ ']' :: r' := by
  intro h
  obtain ⟨c, cs, hc, hlead⟩ := write_lead d
  rw [hc] at h
  obtain rfl := (List.cons.inj h).1
  have hmem := lead_mem d
  rw [← hlead] at hmem
  revert hmem
  decide

mutual

/-- Of two texts that begin with data, equal ones begin with data of the same text. -/
theorem write_append_inj {d d' : Datum} {r r' : List Char} (hr : Ends r) (hr' : Ends r')
    (h : write d ++ r = write d' ++ r') : SameText d d' ∧ r = r' := by
  have hlead := lead_eq h
  by_cases hnull : lead d = 'n'
  · exact sameText_of_null hnull (hlead ▸ hnull) h
  by_cases hnumber : lead d = '-'
  · exact sameText_of_number hnumber (hlead ▸ hnumber) hr hr' h
  match d, d' with
  | .bool true, .bool true => exact ⟨.refl _, List.append_cancel_left h⟩
  | .bool false, .bool false => exact ⟨.refl _, List.append_cancel_left h⟩
  | .float x, _ => exact absurd (lead_float x) (by simp [hnull, hnumber])
  | _, .float x =>
    rw [hlead] at hnull hnumber
    exact absurd (lead_float x) (by simp [hnull, hnumber])
  | .text s, .text s' =>
    obtain ⟨rfl, rfl⟩ := writeText_append_inj h
    exact ⟨.refl _, rfl⟩
  | .list ds, .list ds' =>
    obtain ⟨hds, rfl⟩ := list_append_inj h
    exact ⟨.list hds, rfl⟩
  | .table es, .table es' =>
    obtain ⟨hes, rfl⟩ := table_append_inj h
    exact ⟨.table hes, rfl⟩

theorem list_append_inj {ds ds' : List Datum} {r r' : List Char}
    (h : write (.list ds) ++ r = write (.list ds') ++ r') :
    List.Forall₂ SameText ds ds' ∧ r = r' := by
  match ds, ds' with
  | [], [] => exact ⟨.nil, List.append_cancel_left h⟩
  | [], d' :: ds' =>
    simp only [write, List.cons_append, List.nil_append, List.append_assoc, List.cons.injEq,
      true_and] at h
    exact absurd h.symm (write_ne_close d')
  | d :: ds, [] =>
    simp only [write, List.cons_append, List.nil_append, List.append_assoc, List.cons.injEq,
      true_and] at h
    exact absurd h (write_ne_close d)
  | d :: ds, d' :: ds' =>
    simp only [write, List.cons_append, List.append_assoc, List.cons.injEq, true_and] at h
    obtain ⟨hd, hrest⟩ := write_append_inj (ends_items ds r) (ends_items ds' r') h
    obtain ⟨hds, rfl⟩ := writeItems_append_inj hrest
    exact ⟨.cons hd hds, rfl⟩

theorem table_append_inj {es es' : List (String × Datum)} {r r' : List Char}
    (h : write (.table es) ++ r = write (.table es') ++ r') :
    List.Forall₂ SameEntry es es' ∧ r = r' := by
  match es, es' with
  | [], [] => exact ⟨.nil, List.append_cancel_left h⟩
  | [], e' :: es' => simp [write, writeText] at h
  | e :: es, [] => simp [write, writeText] at h
  | (k, d) :: es, (k', d') :: es' =>
    simp only [write, List.cons_append, List.append_assoc, List.cons.injEq, true_and] at h
    obtain ⟨rfl, hk⟩ := writeText_append_inj h
    obtain ⟨hd, hrest⟩ := write_append_inj (ends_entries es r) (ends_entries es' r')
      (List.cons.inj hk).2
    obtain ⟨hes, rfl⟩ := writeEntries_append_inj hrest
    exact ⟨.cons ⟨rfl, hd⟩ hes, rfl⟩

theorem writeItems_append_inj {ds ds' : List Datum} {r r' : List Char}
    (h : writeItems ds ++ r = writeItems ds' ++ r') : List.Forall₂ SameText ds ds' ∧ r = r' := by
  match ds, ds' with
  | [], [] => exact ⟨.nil, List.append_cancel_left h⟩
  | [], _ :: _ | _ :: _, [] => simp [writeItems] at h
  | d :: ds, d' :: ds' =>
    simp only [writeItems, List.cons_append, List.append_assoc, List.cons.injEq, true_and] at h
    obtain ⟨hd, hrest⟩ := write_append_inj (ends_items ds r) (ends_items ds' r') h
    obtain ⟨hds, rfl⟩ := writeItems_append_inj hrest
    exact ⟨.cons hd hds, rfl⟩

theorem writeEntries_append_inj {es es' : List (String × Datum)} {r r' : List Char}
    (h : writeEntries es ++ r = writeEntries es' ++ r') :
    List.Forall₂ SameEntry es es' ∧ r = r' := by
  match es, es' with
  | [], [] => exact ⟨.nil, List.append_cancel_left h⟩
  | [], _ :: _ | _ :: _, [] => simp [writeEntries] at h
  | (k, d) :: es, (k', d') :: es' =>
    simp only [writeEntries, List.cons_append, List.append_assoc, List.cons.injEq, true_and] at h
    obtain ⟨rfl, hk⟩ := writeText_append_inj h
    obtain ⟨hd, hrest⟩ := write_append_inj (ends_entries es r) (ends_entries es' r')
      (List.cons.inj hk).2
    obtain ⟨hes, rfl⟩ := writeEntries_append_inj hrest
    exact ⟨.cons ⟨rfl, hd⟩ hes, rfl⟩

end

theorem render_injective {d d' : Datum} (hd : d.isExact) (hd' : d'.isExact)
    (h : render d = render d') : d = d' := by
  have hnil : Ends [] := by simp [Ends]
  have hwrite : write d = write d' := String.ofList_injective h
  exact (write_append_inj hnil hnil (by rw [hwrite])).1.eq hd hd'

theorem render_list_inj {ds ds' : List Datum} (h : render (.list ds) = render (.list ds')) :
    List.Forall₂ SameText ds ds' := by
  have hwrite : write (.list ds) ++ [] = write (.list ds') ++ [] :=
    congrArg (· ++ []) (String.ofList_injective h)
  exact (list_append_inj hwrite).1

end Json

end Listing
