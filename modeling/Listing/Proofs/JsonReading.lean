import Listing.Proofs.Digits
import Listing.Proofs.JsonText

namespace Listing

open Number

namespace Number

theorem exists_toDigits {n : Nat} (h : 0 < n) :
    ∃ c cs, Nat.toDigits 10 n = c :: cs ∧ c ≠ '0' := by
  induction n using Nat.strongRecOn with
  | ind n ih =>
    by_cases hn : n < 10
    · have hdigit : ∀ d < 10, 0 < d → d.digitChar ≠ '0' := by decide
      exact ⟨n.digitChar, [], Nat.toDigits_of_lt_base hn, hdigit n hn h⟩
    · obtain ⟨c, cs, hcs, hc⟩ := ih (n / 10) (by omega) (by omega)
      refine ⟨c, cs ++ [(n % 10).digitChar], ?_, hc⟩
      rw [Nat.toDigits_of_base_le (by decide) (by omega), hcs, List.cons_append]

end Number

namespace Json

def Closes (r : List Char) : Prop := ∀ c ∈ r.head?, c = ',' ∨ c = ']' ∨ c = '\x7d'

theorem closes_nil : Closes [] := by simp [Closes]

theorem closes_items (ds : List Datum) (r : List Char) : Closes (writeItems ds ++ r) := by
  cases ds with
  | nil => simp [Closes, writeItems]
  | cons d ds => simp [Closes, writeItems]

theorem closes_entries (es : List (String × Datum)) (r : List Char) :
    Closes (writeEntries es ++ r) := by
  cases es with
  | nil => simp [Closes, writeEntries]
  | cons e es => simp [Closes, writeEntries]

theorem Closes.endsDigits {r : List Char} (h : Closes r) : EndsDigits r := by
  intro c hc
  rcases h c hc with rfl | rfl | rfl <;> decide

theorem Closes.skipSpace_eq {r : List Char} (h : Closes r) : skipSpace r = r := by
  cases r with
  | nil => rfl
  | cons c r => rcases h c rfl with rfl | rfl | rfl <;> rfl

theorem readFraction_of_closes {r : List Char} (h : Closes r) : readFraction r = some ([], r) := by
  cases r with
  | nil => rfl
  | cons c r => rcases h c rfl with rfl | rfl | rfl <;> rfl

theorem readExponentPart_of_closes {r : List Char} (h : Closes r) :
    readExponentPart r = some (none, r) := by
  cases r with
  | nil => rfl
  | cons c r => rcases h c rfl with rfl | rfl | rfl <;> rfl

def readUnsigned (negative : Bool) (cs : List Char) : Option (Numeral × List Char) :=
  let whole := cs.takeWhile isDigit
  match whole with
  | [] | '0' :: _ :: _ => none
  | _ =>
    match readFraction (cs.dropWhile isDigit) with
    | none => none
    | some (fraction, rest) =>
      (readExponentPart rest).map fun (exponent, rest) ↦
        (⟨negative, whole, fraction, exponent⟩, rest)

theorem readNumeral_minus (cs : List Char) :
    readNumeral ('-' :: cs) = readUnsigned true cs := rfl

theorem readNumeral_eq {cs : List Char} (h : ∀ rest, cs ≠ '-' :: rest) :
    readNumeral cs = readUnsigned false cs := by
  rw [readNumeral]
  · rfl
  · exact h

theorem readUnsigned_toDigits (negative : Bool) (n : Nat) {r : List Char} (h : Closes r) :
    readUnsigned negative (Nat.toDigits 10 n ++ r) =
      some (⟨negative, Nat.toDigits 10 n, [], none⟩, r) := by
  have hdigits : ∀ c ∈ Nat.toDigits 10 n, isDigit c := fun c hc ↦ isDigit_of_mem_toDigits hc
  have hzeros : ∀ c cs, Nat.toDigits 10 n ≠ '0' :: c :: cs := by
    intro c cs he
    rcases Nat.eq_zero_or_pos n with rfl | hn
    · simp at he
    · obtain ⟨c', cs', hcs', hc'⟩ := exists_toDigits hn
      exact hc' (List.cons.inj (hcs'.symm.trans he)).1
  rw [readUnsigned, takeWhile_append hdigits h.endsDigits, dropWhile_append hdigits h.endsDigits]
  split
  · next hnil => exact absurd hnil Nat.toDigits_ne_nil
  · next hzero => exact absurd hzero (hzeros _ _)
  · rw [readFraction_of_closes h]
    dsimp only
    rw [readExponentPart_of_closes h]
    rfl

/-- Integers of 64 bits, with or without a sign. -/
def isWide (i : Int) : Bool := minLong ≤ i ∧ i ≤ maxWord

theorem readNumeral_int {i : Int} {r : List Char} (h : Closes r) :
    readNumeral ((toString i).toList ++ r) =
      some (⟨i < 0, Nat.toDigits 10 i.natAbs, [], none⟩, r) := by
  rw [toList_toString]
  by_cases hi : i < 0
  · rw [if_pos hi, List.cons_append, readNumeral_minus, readUnsigned_toDigits true _ h]
    simp [hi]
  · rw [if_neg hi, readNumeral_eq, readUnsigned_toDigits false _ h]
    · simp [hi]
    · intro rest he
      obtain ⟨c, cs, hcs⟩ := List.exists_cons_of_ne_nil
        (Nat.toDigits_ne_nil (n := i.natAbs) (b := 10))
      have hc : isDigit c := isDigit_of_mem_toDigits (hcs ▸ List.mem_cons_self)
      rw [hcs] at he
      obtain rfl := (List.cons.inj he).1
      exact absurd hc (by decide)

theorem datum_int {i : Int} (h : isWide i) :
    Numeral.datum ⟨i < 0, Nat.toDigits 10 i.natAbs, [], none⟩ = .int i := by
  simp only [isWide, Bool.decide_and, Bool.and_eq_true, decide_eq_true_eq] at h
  rw [Numeral.datum, digitsValue_toDigits]
  cases i with
  | ofNat n =>
    have hle : n ≤ maxWord := Int.ofNat_le.1 h.2
    simp [hle]
  | negSucc n =>
    have hne : n + 1 ≠ 0 := by omega
    have hle : minLong ≤ -((n + 1 : Nat) : Int) := h.1
    simp only [Int.natAbs_negSucc, Nat.succ_eq_add_one, Int.negSucc_lt_zero, decide_true, hne, hle,
      ne_eq, not_false_eq_true, List.isEmpty_nil, Option.isNone_none, Bool.and_true, Bool.not_true,
      Bool.and_false, Bool.false_and, Bool.false_eq_true, if_false, if_true]
    rfl

theorem readValue_quote (fuel room : Nat) (cs : List Char) :
    readValue (fuel + 1) room ('"' :: cs) =
      (readText cs).map fun (s, rest) ↦ ((s.map .text).getD .unreadable, rest) := rfl

theorem readValue_bracket (fuel room : Nat) (cs : List Char) :
    readValue (fuel + 1) (room + 1) ('[' :: cs) =
      (match skipSpace cs with
        | ']' :: rest => some ([], rest)
        | rest => readItems fuel room rest).map fun (items, rest) ↦ (.list items, rest) := rfl

theorem readValue_brace (fuel room : Nat) (cs : List Char) :
    readValue (fuel + 1) (room + 1) ('\x7b' :: cs) =
      (match skipSpace cs with
        | '\x7d' :: rest => some ([], rest)
        | rest => readEntries fuel room rest).map fun (entries, rest) ↦ (tableOf entries, rest) :=
  rfl

theorem readValue_text (fuel room : Nat) (s : String) (r : List Char) :
    readValue (fuel + 1) room (writeText s ++ r) = some (.text s, r) := by
  have hcs : writeText s ++ r = '"' :: ((writeText s).tail ++ r) := rfl
  rw [hcs, readValue_quote, readText_writeText]
  rfl

theorem readValue_numeric (fuel room : Nat) {c : Char} (hc : isNumeric c) (cs : List Char) :
    readValue (fuel + 1) room (c :: cs) =
      (readNumeral (c :: cs)).map fun (x, rest) ↦ (x.datum, rest) := by
  have hother : ∀ d ∈ [' ', '\n', '\t', '\r', '"', '[', '\x7b', 'n', 't', 'f'], c ≠ d := by
    have hlead : ∀ d ∈ [' ', '\n', '\t', '\r', '"', '[', '\x7b', 'n', 't', 'f'],
        isNumeric d = false := by simp [isNumeric]
    rintro d hd rfl
    simp [hlead c hd] at hc
  simp only [List.forall_mem_cons] at hother
  obtain ⟨h₁, h₂, h₃, h₄, h₅, h₆, h₇, h₈, h₉, h₁₀, -⟩ := hother
  have hspace : skipSpace (c :: cs) = c :: cs := by
    simp [skipSpace, isSpace, h₁, h₂, h₃, h₄]
  rw [readValue, hspace]
  simp

theorem readValue_int (fuel room : Nat) {i : Int} (h : isWide i) {r : List Char} (hr : Closes r) :
    readValue (fuel + 1) room ((toString i).toList ++ r) = some (.int i, r) := by
  have hread := readNumeral_int (i := i) hr
  obtain ⟨hne, hnumeric⟩ := int_numeric i
  obtain ⟨c, cs, hcs⟩ := List.exists_cons_of_ne_nil hne
  rw [hcs, List.cons_append] at hread ⊢
  rw [readValue_numeric fuel room (hnumeric c (hcs ▸ List.mem_cons_self)), hread]
  simp [datum_int h]

end Json

namespace Datum

mutual

/-- No floats, no unreadable parts, and integers of 64 bits. -/
def isPlain : Datum → Bool
  | int i => Json.isWide i
  | float _ | unreadable => false
  | list items => allPlain items
  | table entries => entriesPlain entries
  | _ => true

def allPlain : List Datum → Bool
  | [] => true
  | d :: ds => d.isPlain && allPlain ds

def entriesPlain : List (String × Datum) → Bool
  | [] => true
  | (_, d) :: es => d.isPlain && entriesPlain es

end

theorem allPlain_iff {ds : List Datum} : allPlain ds ↔ ∀ d ∈ ds, d.isPlain := by
  induction ds with
  | nil => simp [allPlain]
  | cons d ds ih => simp [allPlain, ih]

theorem entriesPlain_iff {es : List (String × Datum)} :
    entriesPlain es ↔ ∀ e ∈ es, e.2.isPlain := by
  induction es with
  | nil => simp [entriesPlain]
  | cons e es ih => simp [entriesPlain, ih]

theorem isPlain_word {n : Nat} (h : n ≤ maxWord) : isPlain (.int n) := by
  have hlong : minLong ≤ 0 := by decide
  simp only [isPlain, Json.isWide, decide_eq_true_eq]
  omega

mutual

def depth : Datum → Nat
  | list items => itemsDepth items + 1
  | table entries => entriesDepth entries + 1
  | _ => 0

def itemsDepth : List Datum → Nat
  | [] => 0
  | d :: ds => max d.depth (itemsDepth ds)

def entriesDepth : List (String × Datum) → Nat
  | [] => 0
  | (_, d) :: es => max d.depth (entriesDepth es)

end

end Datum

namespace Json

theorem tableOf_named (es : List (String × Datum)) :
    tableOf (es.map fun e ↦ (some e.1, e.2)) = .table es := by
  have hnames : (es.map fun e ↦ (some e.1, e.2)).mapM (fun e ↦ e.1.map (·, e.2)) = some es := by
    induction es with
    | nil => rfl
    | cons e es ih =>
      rw [List.map_cons, List.mapM_cons, ih]
      rfl
  rw [tableOf, hnames]

theorem readEntries_quote (fuel room : Nat) (cs : List Char) :
    readEntries (fuel + 1) room ('"' :: cs) =
      match readText cs with
      | none => none
      | some (key, rest) =>
        match skipSpace rest with
        | ':' :: rest =>
          match readValue fuel room rest with
          | none => none
          | some (d, rest) =>
            match skipSpace rest with
            | '\x7d' :: rest => some ([(key, d)], rest)
            | ',' :: rest =>
              (readEntries fuel room rest).map fun (es, rest) ↦ ((key, d) :: es, rest)
            | _ => none
        | _ => none := rfl

theorem readEntries_name (fuel room : Nat) (k : String) (cs : List Char) :
    readEntries (fuel + 1) room (writeText k ++ ':' :: cs) =
      match readValue fuel room cs with
      | none => none
      | some (d, rest) =>
        match skipSpace rest with
        | '\x7d' :: rest => some ([(some k, d)], rest)
        | ',' :: rest =>
          (readEntries fuel room rest).map fun (es, rest) ↦ ((some k, d) :: es, rest)
        | _ => none := by
  have hcs : writeText k ++ ':' :: cs = '"' :: ((writeText k).tail ++ ':' :: cs) := rfl
  rw [hcs, readEntries_quote, readText_writeText]
  rfl

theorem length_write_pos (d : Datum) : 0 < (write d).length := by
  obtain ⟨c, cs, hc, -⟩ := write_lead d
  simp [hc]

theorem length_writeItems_pos (ds : List Datum) : 0 < (writeItems ds).length := by
  cases ds <;> simp [writeItems]

theorem length_writeEntries_pos (es : List (String × Datum)) : 0 < (writeEntries es).length := by
  cases es <;> simp [writeEntries]

theorem skipSpace_write (d : Datum) (r : List Char) : skipSpace (write d ++ r) = write d ++ r := by
  obtain ⟨c, cs, hc, hlead⟩ := write_lead d
  have hspaces : ∀ c ∈ [' ', '\n', '\t', '\r'],
      leadOf c ∉ ['n', 't', 'f', '-', '"', '[', '\x7b'] := by simp [leadOf, isNumeric]
  have hspace : ¬isSpace c := by
    intro h
    have hmem : c ∈ [' ', '\n', '\t', '\r'] := by simpa [isSpace, or_assoc] using h
    exact hspaces c hmem (hlead ▸ lead_mem d)
  rw [hc, List.cons_append, skipSpace, List.dropWhile_cons_of_neg hspace]

mutual

/-- A value takes two steps for each character of its text at most. -/
theorem readValue_write {d : Datum} {fuel room : Nat} {r : List Char} (hplain : d.isPlain)
    (hdepth : d.depth ≤ room) (hfuel : 2 * (write d).length ≤ fuel) (hr : Closes r) :
    readValue fuel room (write d ++ r) = some (d, r) := by
  have hpos : 0 < (write d).length := length_write_pos d
  match fuel with
  | 0 => omega
  | fuel + 1 =>
  match d with
  | .null => rfl
  | .bool true => rfl
  | .bool false => rfl
  | .int i => exact readValue_int fuel room hplain hr
  | .text s => exact readValue_text fuel room s r
  | .float x => simp [Datum.isPlain] at hplain
  | .unreadable => simp [Datum.isPlain] at hplain
  | .list ds =>
    obtain ⟨room, rfl⟩ : ∃ k, room = k + 1 := ⟨room - 1, by rw [Datum.depth] at hdepth; omega⟩
    rw [Datum.depth] at hdepth
    cases ds with
    | nil => rfl
    | cons d ds =>
      rw [write, List.length_cons] at hfuel
      have hitems : readItems fuel room (write d ++ (writeItems ds ++ r)) = some (d :: ds, r) :=
        readItems_write hplain (by omega) (by omega)
      rw [write, List.cons_append, List.append_assoc, readValue_bracket, skipSpace_write]
      split
      · next hclose => exact absurd hclose (write_ne_close d)
      · rw [hitems]
        rfl
  | .table es =>
    obtain ⟨room, rfl⟩ : ∃ k, room = k + 1 := ⟨room - 1, by rw [Datum.depth] at hdepth; omega⟩
    rw [Datum.depth] at hdepth
    cases es with
    | nil => rfl
    | cons e es =>
      obtain ⟨k, d⟩ := e
      rw [write, List.length_cons] at hfuel
      have hentries : readEntries fuel room
          (writeText k ++ ':' :: (write d ++ (writeEntries es ++ r))) =
            some (((k, d) :: es).map fun e ↦ (some e.1, e.2), r) :=
        readEntries_write hplain (by omega) (by omega)
      rw [write, List.cons_append, List.append_assoc, List.cons_append, List.append_assoc,
        readValue_brace]
      have hfound : (readEntries fuel room
          (writeText k ++ ':' :: (write d ++ (writeEntries es ++ r)))).map
            (fun (entries, rest) ↦ (tableOf entries, rest)) = some (.table ((k, d) :: es), r) := by
        rw [hentries, Option.map_some]
        dsimp only
        rw [tableOf_named]
      exact hfound

theorem readItems_write {d : Datum} {ds : List Datum} {fuel room : Nat} {r : List Char}
    (hplain : Datum.allPlain (d :: ds)) (hdepth : Datum.itemsDepth (d :: ds) ≤ room)
    (hfuel : 2 * (write d ++ writeItems ds).length ≤ fuel) :
    readItems fuel room (write d ++ (writeItems ds ++ r)) = some (d :: ds, r) := by
  have hpos := length_writeItems_pos ds
  simp only [Datum.allPlain, Bool.and_eq_true] at hplain
  rw [Datum.itemsDepth] at hdepth
  rw [List.length_append] at hfuel
  match fuel with
  | 0 => omega
  | fuel + 1 =>
  have hvalue : readValue fuel room (write d ++ (writeItems ds ++ r)) =
      some (d, writeItems ds ++ r) :=
    readValue_write hplain.1 (by omega) (by omega) (closes_items ds r)
  rw [readItems, hvalue]
  dsimp only
  rw [(closes_items ds r).skipSpace_eq]
  match ds with
  | [] => rfl
  | d' :: ds =>
    rw [writeItems, List.length_cons] at hfuel
    have hitems : readItems fuel room (write d' ++ (writeItems ds ++ r)) = some (d' :: ds, r) :=
      readItems_write hplain.2 (by omega) (by omega)
    rw [writeItems, List.cons_append, List.append_assoc]
    have hfound : (readItems fuel room (write d' ++ (writeItems ds ++ r))).map
        (fun (items, rest) ↦ (d :: items, rest)) = some (d :: d' :: ds, r) := by
      rw [hitems, Option.map_some]
    exact hfound

theorem readEntries_write {k : String} {d : Datum} {es : List (String × Datum)} {fuel room : Nat}
    {r : List Char} (hplain : Datum.entriesPlain ((k, d) :: es))
    (hdepth : Datum.entriesDepth ((k, d) :: es) ≤ room)
    (hfuel : 2 * (writeText k ++ ':' :: (write d ++ writeEntries es)).length ≤ fuel) :
    readEntries fuel room (writeText k ++ ':' :: (write d ++ (writeEntries es ++ r))) =
      some (((k, d) :: es).map fun e ↦ (some e.1, e.2), r) := by
  have hpos := length_writeEntries_pos es
  simp only [Datum.entriesPlain, Bool.and_eq_true] at hplain
  rw [Datum.entriesDepth] at hdepth
  rw [List.length_append, List.length_cons, List.length_append] at hfuel
  match fuel with
  | 0 => omega
  | fuel + 1 =>
  have hvalue : readValue fuel room (write d ++ (writeEntries es ++ r)) =
      some (d, writeEntries es ++ r) :=
    readValue_write hplain.1 (by omega) (by omega) (closes_entries es r)
  rw [readEntries_name, hvalue]
  dsimp only
  rw [(closes_entries es r).skipSpace_eq]
  match es with
  | [] => rfl
  | (k', d') :: es =>
    rw [writeEntries, List.length_cons] at hfuel
    have hentries : readEntries fuel room
        (writeText k' ++ ':' :: (write d' ++ (writeEntries es ++ r))) =
          some (((k', d') :: es).map fun e ↦ (some e.1, e.2), r) :=
      readEntries_write hplain.2 (by omega) (by omega)
    rw [writeEntries, List.cons_append, List.append_assoc, List.cons_append, List.append_assoc]
    have hfound : (readEntries fuel room
        (writeText k' ++ ':' :: (write d' ++ (writeEntries es ++ r)))).map
          (fun (entries, rest) ↦ ((some k, d) :: entries, rest)) =
            some (((k, d) :: (k', d') :: es).map fun e ↦ (some e.1, e.2), r) := by
      rw [hentries, Option.map_some]
      rfl
    exact hfound

end

theorem read_render {d : Datum} (hplain : d.isPlain) (hdepth : d.depth ≤ maxDepth) :
    read (render d) = some d := by
  have hread : readValue (2 * (write d).length + 2) maxDepth (write d ++ []) = some (d, []) :=
    readValue_write hplain hdepth (by omega) closes_nil
  rw [List.append_nil] at hread
  rw [read, render, String.toList_ofList, hread]
  rfl

end Json

end Listing
