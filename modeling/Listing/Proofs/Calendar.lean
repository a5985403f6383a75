import Listing.Calendar.Basic
import Mathlib.Tactic.IntervalCases

namespace Listing.Calendar

/-- A day of 400 years as centuries, four years, years and days. The last day of each counts to the
year before, which then is a leap year. -/
theorem exists_yearOfEra {n : Nat} (h : n < 146097) : ∃ c q y r, c < 4 ∧ q < 25 ∧ y < 4 ∧
    r ≤ 365 ∧ (r = 365 → y = 3 ∧ (q = 24 → c = 3)) ∧ n = 36524 * c + 1461 * q + 365 * y + r := by
  by_cases hlast : n = 146096
  · exact ⟨3, 24, 3, 365, by omega⟩
  · have hc : n / 36524 < 4 := by omega
    have hq : n % 36524 / 1461 < 25 := by omega
    by_cases hleap : n % 36524 % 1461 = 1460
    · refine ⟨n / 36524, n % 36524 / 1461, 3, 365, hc, hq, ?_⟩
      omega
    · refine ⟨n / 36524, n % 36524 / 1461, n % 36524 % 1461 / 365, n % 36524 % 1461 % 365, hc, hq,
        ?_⟩
      omega

theorem yearOfEra_eq {c q y r : Nat} (hc : c < 4) (hq : q < 25) (hy : y < 4) (hr : r ≤ 365)
    (hlast : r = 365 → y = 3 ∧ (q = 24 → c = 3)) :
    let n := 36524 * c + 1461 * q + 365 * y + r
    (n - n / 1460 + n / 36524 - n / 146096) / 365 = 100 * c + 4 * q + y := by
  intro n
  have hcenturies : n / 36524 = c + n / 146096 := by
    have hcentury : 1461 * q + 365 * y + r < 36524 ∨
        c = 3 ∧ 1461 * q + 365 * y + r = 36524 := by omega
    rcases hcentury with hwithin | ⟨rfl, hbeyond⟩
    · have hn : n = 36524 * c + (1461 * q + 365 * y + r) := by omega
      have hera : n / 146096 = 0 := by omega
      rw [hera, hn, Nat.mul_add_div (by decide), Nat.div_eq_of_lt hwithin]
    · omega
  have hdays : n - n / 1460 + n / 36524 - n / 146096 = n - n / 1460 + c := by omega
  rw [hdays]
  by_cases hlate : 1460 ≤ 24 * c + q + 365 * y + r
  · have hleaps : n / 1460 = 25 * c + q + 1 := by omega
    omega
  · have hleaps : n / 1460 = 25 * c + q := by omega
    omega

def yearStart (year : Int) : Int := 365 * year + year / 4 - year / 100 + year / 400

theorem yearStart_eq (era : Int) {c q y : Nat} (hc : c < 4) (hq : q < 25) (hy : y < 4) :
    yearStart (era * 400 + (100 * c + 4 * q + y : Nat)) =
      146097 * era + (36524 * c + 1461 * q + 365 * y : Nat) := by
  have hfours : (era * 400 + (100 * c + 4 * q + y : Nat)) / 4 = 100 * era + 25 * c + q := by omega
  have hcenturies : (era * 400 + (100 * c + 4 * q + y : Nat)) / 100 = 4 * era + c := by omega
  have heras : (era * 400 + (100 * c + 4 * q + y : Nat)) / 400 = era := by omega
  rw [yearStart, hfours, hcenturies, heras]
  omega

def Date.inYear (year : Int) (dayOfYear : Nat) : Date :=
  let month := (5 * dayOfYear + 2) / 153
  let day := dayOfYear - (153 * month + 2) / 5 + 1
  if month < 10 then ⟨year, month + 3, day⟩ else ⟨year + 1, month - 9, day⟩

theorem dayOfYear_eq {c q y : Nat} (r : Nat) (hq : q < 25) (hy : y < 4) :
    36524 * c + 1461 * q + 365 * y + r - (365 * (100 * c + 4 * q + y) +
      (100 * c + 4 * q + y) / 4 - (100 * c + 4 * q + y) / 100) = r := by
  have hfours : (100 * c + 4 * q + y) / 4 = 25 * c + q := by omega
  have hcenturies : (100 * c + 4 * q + y) / 100 = c := by omega
  omega

theorem isLeap_next (era : Int) {c q y : Nat} (hy : y = 3) (hq : q < 25) (hc : q = 24 → c = 3) :
    isLeap (era * 400 + (100 * c + 4 * q + y : Nat) + 1) := by
  simp only [isLeap, Bool.or_eq_true, Bool.and_eq_true, decide_eq_true_eq]
  omega

/-- Only a leap year ends with a day that other years do not have. -/
theorem Date.exists_inYear (days : Int) : ∃ year r, ofDays days = inYear year r ∧ r ≤ 365 ∧
    (r = 365 → isLeap (year + 1)) ∧ days + epoch = yearStart year + r := by
  have hera : 146097 * ((days + epoch) / 146097) + ((days + epoch) % 146097).toNat =
      days + epoch := by
    rw [Int.toNat_of_nonneg (Int.emod_nonneg _ (by decide)), Int.mul_ediv_add_emod]
  obtain ⟨c, q, y, r, hc, hq, hy, hr, hlast, hn⟩ :=
    exists_yearOfEra (n := ((days + epoch) % 146097).toNat) (by omega)
  have hyear := yearOfEra_eq hc hq hy hr hlast
  refine ⟨(days + epoch) / 146097 * 400 + (100 * c + 4 * q + y : Nat), r, ?_, hr, ?_, ?_⟩
  · rw [ofDays]
    dsimp only at hyear ⊢
    rw [hn, hyear, dayOfYear_eq r hq hy, inYear]
  · intro hleap
    exact isLeap_next _ (hlast hleap).1 hq (hlast hleap).2
  · rw [yearStart_eq _ hc hq hy, Int.add_assoc, ← Int.natCast_add, ← hn, hera]

namespace Date

theorem toDays_inYear (year : Int) {r : Nat} (h : r ≤ 365) :
    (inYear year r).toDays = yearStart year + r - epoch := by
  have hmonth : (5 * r + 2) / 153 < 12 := by omega
  have hstart : (153 * ((5 * r + 2) / 153) + 2) / 5 ≤ r := by omega
  generalize hm : (5 * r + 2) / 153 = m at hmonth hstart
  have hday : (153 * m + 2) / 5 + (r - (153 * m + 2) / 5 + 1) - 1 = r := by omega
  simp only [inYear, hm]
  by_cases hsame : m < 10
  · have hback : (m + 3 + 9) % 12 = m := by omega
    rw [if_pos hsame, toDays]
    simp only [hback, hday, if_neg (by omega : ¬m + 3 ≤ 2)]
    rfl
  · have hback : (m - 9 + 9) % 12 = m := by omega
    rw [if_neg hsame, toDays]
    simp only [hback, hday, if_pos (by omega : m - 9 ≤ 2), Int.add_sub_cancel]
    rfl

def IsValid (d : Date) : Prop :=
  1 ≤ d.month ∧ d.month ≤ 12 ∧ 1 ≤ d.day ∧ d.day ≤ daysIn d.year d.month

theorem inYear_isValid (year : Int) {r : Nat} (h : r ≤ 365) (hleap : r = 365 → isLeap (year + 1)) :
    (inYear year r).IsValid := by
  have hmonth : (5 * r + 2) / 153 < 12 := by omega
  have hlow : 153 * ((5 * r + 2) / 153) ≤ 5 * r + 2 := by omega
  have hhigh : 5 * r + 2 < 153 * ((5 * r + 2) / 153) + 153 := by omega
  generalize hm : (5 * r + 2) / 153 = m at hmonth hlow hhigh
  simp only [inYear, hm]
  by_cases hsame : m < 10
  · rw [if_pos hsame, IsValid, daysIn]
    interval_cases m <;> simp <;> omega
  · rw [if_neg hsame, IsValid, daysIn]
    obtain rfl | rfl : m = 10 ∨ m = 11 := by omega
    · simp
      omega
    · by_cases hlast : r = 365
      · simp [hlast, hleap hlast]
      · simp only [Nat.reduceSub, Nat.reduceMul, Nat.reduceAdd, Nat.reduceDiv, if_true]
        split <;> omega

theorem toDays_ofDays (days : Int) : (ofDays days).toDays = days := by
  obtain ⟨year, r, hdate, hr, -, hdays⟩ := exists_inYear days
  rw [hdate, toDays_inYear year hr]
  omega

theorem ofDays?_eq_some {days : Int} {d : Date} (h : ofDays? days = some d) :
    ofDays days = d ∧ leastYear ≤ d.year ∧ d.year ≤ greatestYear := by
  obtain ⟨hyear, h⟩ := Option.ite_none_right_eq_some.1 h
  obtain rfl := Option.some.inj h
  exact ⟨rfl, hyear⟩

/-- Only the year of a day can be out of range. -/
theorem date?_of_ofDays? {days : Int} {d : Date} (h : ofDays? days = some d) :
    date? d.year d.month d.day = some d := by
  obtain ⟨rfl, hleast, hgreatest⟩ := ofDays?_eq_some h
  obtain ⟨year, r, hdate, hr, hleap, -⟩ := exists_inYear days
  have hvalid := inYear_isValid year hr hleap
  rw [← hdate] at hvalid
  rw [date?, if_pos ⟨hleast, hgreatest, hvalid⟩]

end Date

namespace Moment

theorem second_ofMicros (micros : Int) : (ofMicros micros).time.second < secondsOfDay := by
  simp only [ofMicros, secondsOfDay]
  omega

theorem nano_ofMicros (micros : Int) : (ofMicros micros).time.nano < nanosPerSecond := by
  simp only [ofMicros, nanosPerSecond]
  omega

theorem toMicros_ofMicros (micros : Int) : (ofMicros micros).toMicros = micros := by
  have hnanos : ((ofMicros micros).day * secondsOfDay + (ofMicros micros).time.second) *
      nanosPerSecond + (ofMicros micros).time.nano = micros * 1000 := by
    simp only [ofMicros, secondsOfDay, nanosPerSecond]
    omega
  rw [toMicros, hnanos, Int.mul_tdiv_cancel _ (by decide)]

end Moment

end Listing.Calendar
