import Listing.Calendar.Reader
import Listing.Calendar.Writer
import Listing.Proofs.Calendar
import Listing.Proofs.Digits
import Listing.Proofs.Outcome

namespace Listing.Calendar

open Number Text

theorem isBlank_of_isDigit {c : Char} (h : isDigit c) : isBlank c = false := by
  have hrange := digit_range h
  simp only [isBlank, Bool.or_eq_false_iff, Bool.and_eq_false_iff, beq_eq_false_iff_ne,
    decide_eq_false_iff_not]
  omega

/-- So many digits, and the number that they stand for. -/
structure IsNumeral (width n : Nat) (ds : List Char) : Prop where
  digits : ∀ c ∈ ds, isDigit c
  length : ds.length = width
  value : digitsValue ds = n

theorem toList_padded (width n : Nat) : (padded width n).toList =
    List.replicate (width - (Nat.toDigits 10 n).length) '0' ++ Nat.toDigits 10 n := by
  have htext : toString n = n.repr := rfl
  rw [padded, String.toList_append, String.toList_ofList, htext, Nat.toList_repr, ← Nat.toList_repr,
    String.length_toList]

theorem isNumeral_padded (width n : Nat) :
    IsNumeral (max width (Nat.toDigits 10 n).length) n (padded width n).toList := by
  rw [toList_padded]
  refine ⟨List.forall_mem_append.2 ⟨fun c hc ↦ ?_, fun c hc ↦ isDigit_of_mem_toDigits hc⟩, ?_, ?_⟩
  · rw [List.eq_of_mem_replicate hc]
    rfl
  · rw [List.length_append, List.length_replicate]
    omega
  · rw [digitsValue_zeros, digitsValue_toDigits]

theorem isNumeral_of_lt {width n : Nat} (hwidth : 0 < width) (h : n < 10 ^ width) :
    IsNumeral width n (padded width n).toList := by
  have hlength : (Nat.toDigits 10 n).length ≤ width := Nat.toDigits_length 10 n width hwidth h
  have hpadded := isNumeral_padded width n
  rwa [max_eq_left hlength] at hpadded

theorem isNumeral_two {n : Nat} (h : n < 100) : IsNumeral 2 n (padded 2 n).toList :=
  isNumeral_of_lt (by decide) h

theorem isNumeral_year {year : Int} (h : 0 ≤ year ∧ year ≤ 9999) :
    IsNumeral 4 year.toNat (yearText year).toList := by
  rw [yearText, if_pos h]
  exact isNumeral_of_lt (by decide) (by omega)

namespace IsNumeral

variable {width n : Nat} {ds r : List Char}

theorem ne_nil (h : IsNumeral width n ds) (hwidth : 0 < width) : ds ≠ [] := by
  rintro rfl
  have hlength := h.length
  simp only [List.length_nil] at hlength
  omega

theorem readNumber_append (h : IsNumeral width n ds) {least most : Nat} (hleast : least ≤ width)
    (hmost : width ≤ most) (hr : width = most ∨ EndsDigits r) :
    readNumber least most (ds ++ r) = some (n, r) := by
  have hends : EndsDigits (r.take (most - width)) := by
    intro c hc
    rcases hr with rfl | hr
    · simp at hc
    · rw [List.head?_take] at hc
      split at hc
      · simp at hc
      · exact hr c hc
  have htake : (ds ++ r).take most = ds ++ r.take (most - width) := by
    rw [List.take_append, List.take_of_length_le (by rw [h.length]; exact hmost), h.length]
  have hdigits : ((ds ++ r).take most).takeWhile isDigit = ds := by
    rw [htake]
    exact takeWhile_append h.digits hends
  simp only [readNumber, hdigits, h.length, h.value, if_neg (not_lt.2 hleast)]
  rw [List.drop_left' h.length]

theorem trimLeft_append (h : IsNumeral width n ds) (hwidth : 0 < width) :
    trimLeft (ds ++ r) = ds ++ r := by
  obtain ⟨c, cs, rfl⟩ := List.exists_cons_of_ne_nil (h.ne_nil hwidth)
  have hblank : isBlank c = false := isBlank_of_isDigit (h.digits c (by simp))
  rw [List.cons_append, trimLeft, List.dropWhile_cons_of_neg (by simp [hblank])]

theorem readPart_append (h : IsNumeral 2 n ds) {least greatest : Nat} (hleast : least ≤ n)
    (hgreatest : n ≤ greatest) : readPart least greatest (ds ++ r) = some (n, r) := by
  rw [readPart, h.trimLeft_append (by decide),
    h.readNumber_append (by decide) (by decide) (.inl rfl)]
  simp [hleast, hgreatest]

theorem readFixed_append (h : IsNumeral width n ds) {least greatest : Nat} (hleast : least ≤ n)
    (hgreatest : n ≤ greatest) : readFixed width least greatest (ds ++ r) = some (n, r) := by
  rw [readFixed, h.readNumber_append le_rfl le_rfl (.inl rfl)]
  simp [hleast, hgreatest]

theorem readYear_append (h : IsNumeral width n ds) (hpos : 0 < width) (hmost : width ≤ 4)
    (hr : EndsDigits r) : readYear (ds ++ r) = some ((n : Int), r) := by
  obtain ⟨c, cs, rfl⟩ := List.exists_cons_of_ne_nil (h.ne_nil hpos)
  have hdigit : isDigit c := h.digits c (by simp)
  rw [readYear, h.trimLeft_append hpos]
  split
  · next hminus =>
    rw [(List.cons.inj hminus).1] at hdigit
    exact absurd hdigit (by decide)
  · next hplus =>
    rw [(List.cons.inj hplus).1] at hdigit
    exact absurd hdigit (by decide)
  · rw [h.readNumber_append hpos hmost (.inr hr)]
    rfl

theorem readSigned_append (h : IsNumeral width n ds) (hpos : 0 < width) (hr : EndsDigits r) :
    readNumber 1 (ds ++ r).length (ds ++ r) = some (n, r) := by
  have hmost : width ≤ (ds ++ r).length := by
    rw [List.length_append, h.length]
    omega
  exact h.readNumber_append hpos hmost (.inr hr)

theorem readYear_minus (h : IsNumeral width n ds) (hpos : 0 < width) (hr : EndsDigits r) :
    readYear ('-' :: (ds ++ r)) = some (-(n : Int), r) := by
  have hread : readYear ('-' :: (ds ++ r)) = (readNumber 1 (ds ++ r).length (ds ++ r)).map
      fun x ↦ (-(x.1 : Int), x.2) := rfl
  rw [hread, h.readSigned_append hpos hr, Option.map_some]

theorem readYear_plus (h : IsNumeral width n ds) (hpos : 0 < width) (hr : EndsDigits r) :
    readYear ('+' :: (ds ++ r)) = some ((n : Int), r) := by
  have hread : readYear ('+' :: (ds ++ r)) = (readNumber 1 (ds ++ r).length (ds ++ r)).map
      fun x ↦ ((x.1 : Int), x.2) := rfl
  rw [hread, h.readSigned_append hpos hr, Option.map_some]

theorem readNanos_append (h : IsNumeral width n ds) (hpos : 0 < width) (hmost : width ≤ 9)
    (hr : EndsDigits r) : readNanos (ds ++ r) = some (n * 10 ^ (9 - width), r) := by
  have hplaces : (ds ++ r).length - r.length = width := by
    rw [List.length_append, h.length]
    omega
  have hrest : r.dropWhile isDigit = r :=
    dropWhile_append (by simp : ∀ c ∈ [], isDigit c) hr
  rw [readNanos, h.readNumber_append hpos hmost (.inr hr)]
  simp only [Option.bind_eq_bind, Option.bind_some, hplaces, hrest]

end IsNumeral

theorem readChar_cons (c : Char) (cs : List Char) : readChar c (c :: cs) = some cs := if_pos rfl

theorem readSeparator_cons (cs : List Char) : readSeparator ('T' :: cs) = some cs := rfl

theorem readYear_yearText (year : Int) {r : List Char} (hr : EndsDigits r) :
    readYear ((yearText year).toList ++ r) = some (year, r) := by
  by_cases hyear : 0 ≤ year ∧ year ≤ 9999
  · rw [(isNumeral_year hyear).readYear_append (by decide) (by decide) hr,
      Int.toNat_of_nonneg hyear.1]
  · rw [yearText, if_neg hyear]
    have hnumeral := isNumeral_padded 4 year.natAbs
    rw [String.toList_append]
    split
    · have hread := hnumeral.readYear_minus (by omega) hr
      rw [(by omega : -(year.natAbs : Int) = year)] at hread
      exact hread
    · have hread := hnumeral.readYear_plus (by omega) hr
      rw [(by omega : (year.natAbs : Int) = year)] at hread
      exact hread

theorem Date.toList_text (d : Date) : d.text.toList = (yearText d.year).toList ++
    '-' :: ((padded 2 d.month).toList ++ '-' :: (padded 2 d.day).toList) := by
  simp [Date.text, String.toList_append]

theorem endsDigits_hyphen (r : List Char) : EndsDigits ('-' :: r) := by
  rintro c ⟨⟩
  rfl

theorem daysIn_le (year : Int) (month : Nat) : daysIn year month ≤ 31 := by
  rw [daysIn]
  split_ifs <;> decide

theorem Date.isValid_of_date? {d : Date} (h : date? d.year d.month d.day = some d) :
    d.IsValid := by
  obtain ⟨⟨-, -, hvalid⟩, -⟩ := Option.ite_none_right_eq_some.1 h
  exact hvalid

theorem readDate_text {d : Date} (h : date? d.year d.month d.day = some d) (r : List Char) :
    readDate (d.text.toList ++ r) = some (d, r) := by
  obtain ⟨hmonth, hmonths, hday, hdays⟩ := Date.isValid_of_date? h
  have hle := daysIn_le d.year d.month
  have hmonthDigits := isNumeral_two (n := d.month) (by omega)
  have hdayDigits := isNumeral_two (n := d.day) (by omega)
  rw [d.toList_text, readDate]
  simp only [List.append_assoc, List.cons_append, readYear_yearText _ (endsDigits_hyphen _),
    hmonthDigits.readPart_append hmonth hmonths,
    hdayDigits.readPart_append hday (hdays.trans hle), readChar, if_true, Option.bind_eq_bind,
    Option.bind_some, h]

def EndsTime (r : List Char) : Prop := ∀ c ∈ r.head?, isDigit c = false ∧ c ≠ '.'

theorem EndsTime.endsDigits {r : List Char} (h : EndsTime r) : EndsDigits r := fun c hc ↦ (h c hc).1

theorem readFraction_text {nano : Nat} (h : nano < nanosPerSecond) {r : List Char}
    (hr : EndsTime r) : readFraction ((fractionText nano).toList ++ r) = some (nano, r) := by
  have hplaces : ∀ {width n : Nat}, 0 < width → width ≤ 9 → n < 10 ^ width →
      readFraction (("." ++ padded width n).toList ++ r) = some (n * 10 ^ (9 - width), r) := by
    intro width n hpos hmost hn
    rw [String.toList_append]
    exact (isNumeral_of_lt hpos hn).readNanos_append hpos hmost hr.endsDigits
  rw [nanosPerSecond] at h
  rw [fractionText]
  split_ifs with hnone hmillis hmicros
  · cases r with
    | nil => rw [hnone]; rfl
    | cons c r =>
      have hpoint := (hr c rfl).2
      rw [hnone, String.toList_empty, List.nil_append, readFraction]
      rintro _ ⟨⟩
      exact hpoint rfl
  · rw [hplaces (by decide) (by decide) (by omega)]
    simp only [Option.some.injEq, Prod.mk.injEq, and_true]
    omega
  · rw [hplaces (by decide) (by decide) (by omega)]
    simp only [Option.some.injEq, Prod.mk.injEq, and_true]
    omega
  · rw [hplaces (by decide) (by decide) (by omega)]
    simp

theorem Time.of_parts (t : Time) :
    Time.of (t.second / 3600) (t.second / 60 % 60) (t.second % 60) t.nano = t := by
  have hsum : 3600 * (t.second / 3600) + 60 * (t.second / 60 % 60) + t.second % 60 = t.second := by
    omega
  rw [Time.of, if_neg (by omega), hsum]

theorem Time.toList_text (t : Time) : t.text.toList = (padded 2 (t.second / 3600)).toList ++
    ':' :: ((padded 2 (t.second / 60 % 60)).toList ++
      ':' :: ((padded 2 (t.second % 60)).toList ++ (fractionText t.nano).toList)) := by
  simp [Time.text, String.toList_append]

/-- A time of a day, without a leap second. -/
structure Time.IsValid (t : Time) : Prop where
  second : t.second < secondsOfDay
  nano : t.nano < nanosPerSecond

variable {t : Time} {r : List Char}

theorem Time.IsValid.hour_le (h : t.IsValid) : t.second / 3600 ≤ 23 := by
  have hsecond := h.second
  rw [secondsOfDay] at hsecond
  omega

theorem readTime_text (h : t.IsValid) (hr : EndsTime r) :
    readTime (t.text.toList ++ r) = some (t, r) := by
  have hhour := h.hour_le
  have hhours := isNumeral_two (n := t.second / 3600) (by omega)
  have hminutes := isNumeral_two (n := t.second / 60 % 60) (by omega)
  have hseconds := isNumeral_two (n := t.second % 60) (by omega)
  rw [t.toList_text, readTime]
  simp only [List.append_assoc, List.cons_append, readChar, if_true, Option.bind_eq_bind,
    Option.bind_some, hhours.readPart_append (Nat.zero_le _) hhour,
    hminutes.readPart_append (Nat.zero_le _) (by omega : _ ≤ 59),
    hseconds.readPart_append (Nat.zero_le _) (by omega : _ ≤ 60), readFraction_text h.nano hr,
    t.of_parts]

variable {d : Date} {z : String}

def momentText (d : Date) (t : Time) (z : String) : String := d.text ++ "T" ++ t.text ++ z

theorem toList_momentText (d : Date) (t : Time) (z : String) : (momentText d t z).toList =
    d.text.toList ++ 'T' :: (t.text.toList ++ z.toList) := by
  simp [momentText, String.toList_append]

theorem localOf?_momentText (hd : date? d.year d.month d.day = some d) (ht : t.IsValid)
    (hz : EndsTime z.toList) : localOf? false (momentText d t z) =
      if z.toList = [] then some ⟨d.toDays, t⟩ else none := by
  rw [localOf?, toList_momentText, readDate_text hd]
  simp only [Option.bind_eq_bind, Option.bind_some, readChar, if_true, Bool.false_eq_true, if_false,
    readTime_text ht hz]
  cases z.toList <;> rfl

theorem localOf?_blank_momentText (hd : date? d.year d.month d.day = some d) :
    localOf? true (momentText d t z) = none := by
  rw [localOf?, toList_momentText, readDate_text hd]
  rfl

theorem dateOf?_momentText (hd : date? d.year d.month d.day = some d) :
    dateOf? (momentText d t z) = none := by
  rw [dateOf?, toList_momentText, readDate_text hd]

theorem readFixed_yearText {year : Int} (h : ¬(0 ≤ year ∧ year ≤ 9999)) (r : List Char) :
    readFixed 4 0 9999 ((yearText year).toList ++ r) = none := by
  have hsign : ∀ c, isDigit c = false → ∀ cs, readFixed 4 0 9999 (c :: cs) = none := by
    intro c hc cs
    simp [readFixed, readNumber, hc]
  rw [yearText, if_neg h, String.toList_append]
  split
  · exact hsign '-' rfl _
  · exact hsign '+' rfl _

/-- With an offset, a year has four digits. -/
theorem offsetOf?_momentText (hd : date? d.year d.month d.day = some d) (ht : t.IsValid)
    (hz : EndsTime z.toList) : offsetOf? (momentText d t z) =
      if 0 ≤ d.year ∧ d.year ≤ 9999 then
        (readOffset z.toList).bind fun (offset, cs) ↦
          if cs = [] then some ((⟨d.toDays, t⟩ : Moment).back offset) else none
      else none := by
  rw [offsetOf?, toList_momentText, d.toList_text]
  by_cases hyear : 0 ≤ d.year ∧ d.year ≤ 9999
  · rw [if_pos hyear]
    obtain ⟨hmonth, hmonths, hday, hdays⟩ := Date.isValid_of_date? hd
    have hle := daysIn_le d.year d.month
    have hhour := ht.hour_le
    have hyears := isNumeral_year hyear
    have hyearOf : (d.year.toNat : Int) = d.year := Int.toNat_of_nonneg hyear.1
    have hmonthDigits := isNumeral_two (n := d.month) (by omega)
    have hdayDigits := isNumeral_two (n := d.day) (by omega)
    have hhours := isNumeral_two (n := t.second / 3600) (by omega)
    have hminutes := isNumeral_two (n := t.second / 60 % 60) (by omega)
    have hseconds := isNumeral_two (n := t.second % 60) (by omega)
    rw [t.toList_text]
    simp only [List.append_assoc, List.cons_append]
    -- Each step is taken as soon as it is met: those after it are looked at once, not once a step.
    simp only [↓bind_of_eq_some (hyears.readFixed_append (Nat.zero_le _) (by omega : _ ≤ 9999)),
      ↓bind_of_eq_some (hmonthDigits.readFixed_append hmonth hmonths),
      ↓bind_of_eq_some (hdayDigits.readFixed_append hday (hdays.trans hle)),
      ↓bind_of_eq_some (readChar_cons _ _), ↓bind_of_eq_some (readSeparator_cons _),
      ↓bind_of_eq_some (hhours.readFixed_append (Nat.zero_le _) hhour),
      ↓bind_of_eq_some (hminutes.readFixed_append (Nat.zero_le _) (by omega : _ ≤ 59)),
      ↓bind_of_eq_some (hseconds.readFixed_append (Nat.zero_le _) (by omega : _ ≤ 60))]
    simp only [readFraction_text ht.nano hz, t.of_parts, hyearOf, hd, Option.bind_eq_bind,
      Option.bind_some]
  · rw [if_neg hyear, List.append_assoc, readFixed_yearText hyear]
    rfl

/-- A date alone has nothing that an offset could stand behind. -/
theorem offsetOf?_text (hd : date? d.year d.month d.day = some d) : offsetOf? d.text = none := by
  rw [offsetOf?, d.toList_text]
  by_cases hyear : 0 ≤ d.year ∧ d.year ≤ 9999
  · obtain ⟨hmonth, hmonths, hday, hdays⟩ := Date.isValid_of_date? hd
    have hle := daysIn_le d.year d.month
    have hyears := isNumeral_year hyear
    have hmonthDigits := isNumeral_two (n := d.month) (by omega)
    have hdayDigits := isNumeral_two (n := d.day) (by omega)
    rw [← List.append_nil (padded 2 d.day).toList]
    simp only [↓bind_of_eq_some (hyears.readFixed_append (Nat.zero_le _) (by omega : _ ≤ 9999)),
      ↓bind_of_eq_some (hmonthDigits.readFixed_append hmonth hmonths),
      ↓bind_of_eq_some (hdayDigits.readFixed_append hday (hdays.trans hle)),
      ↓bind_of_eq_some (readChar_cons _ _)]
    rfl
  · rw [readFixed_yearText hyear]
    rfl

theorem momentOf?_text (hd : date? d.year d.month d.day = some d) :
    momentOf? d.text = some (.ofDate d) := by
  have hread : readDate d.text.toList = some (d, []) := by
    rw [← List.append_nil d.text.toList]
    exact readDate_text hd []
  have hlocal : localOf? false d.text = none := by
    rw [localOf?, hread]
    rfl
  have hblank : localOf? true d.text = none := by
    rw [localOf?, hread]
    rfl
  have hdate : dateOf? d.text = some d := by
    rw [dateOf?, hread]
  rw [momentOf?, offsetOf?_text hd, hlocal, hblank, hdate]
  rfl

theorem Moment.back_zero {m : Moment} (h : m.time.IsValid) : m.back 0 = m := by
  have hsecond := h.second
  obtain ⟨day, second, nano⟩ := m
  simp only [back, secondsOfDay, Moment.mk.injEq, Time.mk.injEq, and_true] at hsecond ⊢
  omega

theorem momentOf?_local (hd : date? d.year d.month d.day = some d) (ht : t.IsValid) :
    momentOf? (momentText d t "") = some ⟨d.toDays, t⟩ := by
  have hends : EndsTime "".toList := by simp [EndsTime]
  have hoffset : offsetOf? (momentText d t "") = none := by
    rw [offsetOf?_momentText hd ht hends]
    split <;> rfl
  rw [momentOf?, hoffset, localOf?_momentText hd ht hends]
  rfl

theorem momentOf?_utc (hd : date? d.year d.month d.day = some d) (ht : t.IsValid) :
    momentOf? (momentText d t "+00:00") =
      if 0 ≤ d.year ∧ d.year ≤ 9999 then some ⟨d.toDays, t⟩ else none := by
  have hends : EndsTime "+00:00".toList := by
    rintro c ⟨⟩
    decide
  have hlocal : localOf? false (momentText d t "+00:00") = none :=
    localOf?_momentText hd ht hends
  rw [momentOf?, hlocal, localOf?_blank_momentText hd, dateOf?_momentText hd,
    offsetOf?_momentText hd ht hends]
  split
  · have hoffset : readOffset "+00:00".toList = some (0, []) := by decide
    rw [hoffset, Option.bind_some]
    dsimp only
    rw [if_pos rfl, Moment.back_zero ht]
    rfl
  · rfl

end Listing.Calendar
