import Listing.Calendar.Reader
import Listing.Proofs.Calendar
import Listing.Proofs.Digits
import Mathlib.Data.List.Induction
import Mathlib.Data.List.TakeWhile
import Mathlib.Data.Option.Basic

namespace Listing.Calendar

open Number

theorem digitsValue_lt (ds : List Char) (h : ∀ c ∈ ds, isDigit c) :
    digitsValue ds < 10 ^ ds.length := by
  induction ds using List.reverseRecOn with
  | nil => decide
  | append_singleton ds c ih =>
    obtain ⟨hds, hc⟩ := List.forall_mem_append.1 h
    have hdigit := digit_range (hc c (List.mem_singleton_self c))
    have hzero : '0'.toNat = 48 := rfl
    have hstep : digitsValue (ds ++ [c]) = 10 * digitsValue ds + digitValue c := by
      simp [digitsValue]
    have hds := ih hds
    rw [hstep, List.length_append, List.length_singleton, Nat.pow_succ, digitValue]
    omega

theorem readNumber_eq_some {least most n : Nat} {cs rest : List Char}
    (h : readNumber least most cs = some (n, rest)) :
    cs.length - rest.length ≤ most ∧ n < 10 ^ (cs.length - rest.length) := by
  simp only [readNumber] at h
  split at h
  · simp at h
  · obtain ⟨rfl, rfl⟩ := Prod.mk.inj (Option.some.inj h)
    have htake : ((cs.take most).takeWhile isDigit).length ≤ (cs.take most).length :=
      (List.takeWhile_prefix _).length_le
    have hlt := digitsValue_lt ((cs.take most).takeWhile isDigit)
      fun _ hc ↦ List.mem_takeWhile_imp hc
    rw [List.length_take] at htake
    have hused : cs.length - (cs.drop ((cs.take most).takeWhile isDigit).length).length =
        ((cs.take most).takeWhile isDigit).length := by
      rw [List.length_drop]
      omega
    rw [hused]
    exact ⟨by omega, hlt⟩

theorem le_of_checked {least greatest n : Nat} {x : Option (Nat × List Char)} {rest : List Char}
    (h : (x.bind fun (n, rest) ↦ if least ≤ n ∧ n ≤ greatest then some (n, rest) else none) =
      some (n, rest)) : n ≤ greatest := by
  obtain ⟨_, -, h⟩ := Option.bind_eq_some_iff.1 h
  obtain ⟨hrange, h⟩ := Option.ite_none_right_eq_some.1 h
  obtain ⟨rfl, -⟩ := Prod.mk.inj (Option.some.inj h)
  exact hrange.2

theorem readFixed_le {digits least greatest n : Nat} {cs rest : List Char}
    (h : readFixed digits least greatest cs = some (n, rest)) : n ≤ greatest := le_of_checked h

theorem readPart_le {least greatest n : Nat} {cs rest : List Char}
    (h : readPart least greatest cs = some (n, rest)) : n ≤ greatest := le_of_checked h

/-- A second of a day, with up to two thousand million nanoseconds, since it may be a leap
second. -/
structure Time.IsBounded (t : Time) : Prop where
  second : t.second < secondsOfDay
  nano : t.nano < 2 * nanosPerSecond

theorem readFraction_lt {nano : Nat} {cs rest : List Char}
    (h : readFraction cs = some (nano, rest)) : nano < nanosPerSecond := by
  unfold readFraction at h
  split at h
  · next digits =>
    obtain ⟨⟨n, left⟩, hn, h⟩ := Option.bind_eq_some_iff.1 h
    obtain ⟨rfl, -⟩ := Prod.mk.inj (Option.some.inj h)
    obtain ⟨hplaces, hlt⟩ := readNumber_eq_some hn
    calc n * 10 ^ (9 - (digits.length - left.length))
      _ < 10 ^ (digits.length - left.length) * 10 ^ (9 - (digits.length - left.length)) :=
        Nat.mul_lt_mul_of_pos_right hlt (Nat.pow_pos (by decide))
      _ = nanosPerSecond := by
        rw [← Nat.pow_add, Nat.add_sub_cancel' hplaces]
        rfl
  · obtain ⟨rfl, -⟩ := Prod.mk.inj (Option.some.inj h)
    decide

theorem Time.isBounded_of {hour minute second nano : Nat} (hhour : hour ≤ 23)
    (hminute : minute ≤ 59) (hsecond : second ≤ 60) (hnano : nano < nanosPerSecond) :
    (Time.of hour minute second nano).IsBounded := by
  simp only [Time.of]
  split
  all_goals
    refine ⟨?_, ?_⟩
    all_goals
      simp only [secondsOfDay, nanosPerSecond] at hnano ⊢
      omega

theorem midnight_isBounded : Time.midnight.IsBounded := ⟨by decide, by decide⟩

theorem readTime_isBounded {t : Time} {cs rest : List Char} (h : readTime cs = some (t, rest)) :
    t.IsBounded := by
  obtain ⟨⟨hour, cs⟩, hhour, h⟩ := Option.bind_eq_some_iff.1 h
  obtain ⟨cs, -, h⟩ := Option.bind_eq_some_iff.1 h
  obtain ⟨⟨minute, cs⟩, hminute, h⟩ := Option.bind_eq_some_iff.1 h
  obtain ⟨cs, -, h⟩ := Option.bind_eq_some_iff.1 h
  obtain ⟨⟨second, cs⟩, hsecond, h⟩ := Option.bind_eq_some_iff.1 h
  obtain ⟨⟨nano, cs⟩, hnano, h⟩ := Option.bind_eq_some_iff.1 h
  obtain ⟨rfl, -⟩ := Prod.mk.inj (Option.some.inj h)
  exact Time.isBounded_of (readPart_le hhour) (readPart_le hminute) (readPart_le hsecond)
    (readFraction_lt hnano)

def farthest : Int := 97000000

/-- A moment of which the days and the microseconds are bounded. -/
structure Moment.IsBounded (m : Moment) : Prop where
  least : -farthest ≤ m.day
  greatest : m.day ≤ farthest
  time : m.time.IsBounded

theorem date?_eq_some {year : Int} {month day : Nat} {d : Date}
    (h : date? year month day = some d) :
    leastYear ≤ d.year ∧ d.year ≤ greatestYear ∧ d.month ≤ 12 ∧ d.day ≤ 31 := by
  obtain ⟨⟨hleast, hgreatest, -, hmonth, -, hday⟩, h⟩ := Option.ite_none_right_eq_some.1 h
  obtain rfl := Option.some.inj h
  have hdays : daysIn year month ≤ 31 := by
    rw [daysIn]
    split_ifs <;> decide
  exact ⟨hleast, hgreatest, hmonth, hday.trans hdays⟩

theorem toDays_bounds {year : Int} {month day : Nat} {d : Date}
    (h : date? year month day = some d) : -farthest < d.toDays ∧ d.toDays < farthest := by
  obtain ⟨hleast, hgreatest, hmonth, hday⟩ := date?_eq_some h
  have hstart : (153 * ((d.month + 9) % 12) + 2) / 5 ≤ 337 := by omega
  rw [leastYear] at hleast
  rw [greatestYear] at hgreatest
  simp only [Date.toDays, epoch, farthest]
  split <;> omega

theorem readDate_bounds {d : Date} {cs rest : List Char} (h : readDate cs = some (d, rest)) :
    -farthest < d.toDays ∧ d.toDays < farthest := by
  obtain ⟨⟨year, cs⟩, -, h⟩ := Option.bind_eq_some_iff.1 h
  obtain ⟨cs, -, h⟩ := Option.bind_eq_some_iff.1 h
  obtain ⟨⟨month, cs⟩, -, h⟩ := Option.bind_eq_some_iff.1 h
  obtain ⟨cs, -, h⟩ := Option.bind_eq_some_iff.1 h
  obtain ⟨⟨day, cs⟩, -, h⟩ := Option.bind_eq_some_iff.1 h
  obtain ⟨date, hdate, h⟩ := Option.bind_eq_some_iff.1 h
  obtain ⟨rfl, -⟩ := Prod.mk.inj (Option.some.inj h)
  exact toDays_bounds hdate

variable {s : String} {m : Moment}

theorem readOffset_bounds {seconds : Int} {cs rest : List Char}
    (h : readOffset cs = some (seconds, rest)) :
    -secondsOfDay < seconds ∧ seconds < secondsOfDay := by
  unfold readOffset at h
  split at h
  case h_1 | h_2 =>
    obtain ⟨rfl, -⟩ := Prod.mk.inj (Option.some.inj h)
    decide
  case h_6 => simp at h
  all_goals
    obtain ⟨⟨hours, cs⟩, -, h⟩ := Option.bind_eq_some_iff.1 h
    obtain ⟨cs, -, h⟩ := Option.bind_eq_some_iff.1 h
    obtain ⟨⟨minutes, cs⟩, -, h⟩ := Option.bind_eq_some_iff.1 h
    obtain ⟨hrange, h⟩ := Option.ite_none_right_eq_some.1 h
    obtain ⟨rfl, -⟩ := Prod.mk.inj (Option.some.inj h)
    simp only [secondsOfDay]
    split <;> omega

theorem Moment.back_isBounded {seconds : Int} (hlow : -farthest < m.day) (hhigh : m.day < farthest)
    (htime : m.time.IsBounded) (hseconds : -secondsOfDay < seconds ∧ seconds < secondsOfDay) :
    (m.back seconds).IsBounded := by
  obtain ⟨hsecond, hnano⟩ := htime
  simp only [secondsOfDay] at hsecond hseconds
  refine ⟨?_, ?_, ?_, hnano⟩
  all_goals
    simp only [back, secondsOfDay]
    omega

theorem offsetOf?_isBounded (h : offsetOf? s = some m) : m.IsBounded := by
  obtain ⟨⟨year, cs⟩, -, h⟩ := Option.bind_eq_some_iff.1 h
  obtain ⟨cs, -, h⟩ := Option.bind_eq_some_iff.1 h
  obtain ⟨⟨month, cs⟩, -, h⟩ := Option.bind_eq_some_iff.1 h
  obtain ⟨cs, -, h⟩ := Option.bind_eq_some_iff.1 h
  obtain ⟨⟨day, cs⟩, -, h⟩ := Option.bind_eq_some_iff.1 h
  obtain ⟨cs, -, h⟩ := Option.bind_eq_some_iff.1 h
  obtain ⟨⟨hour, cs⟩, hhour, h⟩ := Option.bind_eq_some_iff.1 h
  obtain ⟨cs, -, h⟩ := Option.bind_eq_some_iff.1 h
  obtain ⟨⟨minute, cs⟩, hminute, h⟩ := Option.bind_eq_some_iff.1 h
  obtain ⟨cs, -, h⟩ := Option.bind_eq_some_iff.1 h
  obtain ⟨⟨second, cs⟩, hsecond, h⟩ := Option.bind_eq_some_iff.1 h
  obtain ⟨⟨nano, cs⟩, hnano, h⟩ := Option.bind_eq_some_iff.1 h
  obtain ⟨⟨offset, cs⟩, hoffset, h⟩ := Option.bind_eq_some_iff.1 h
  obtain ⟨date, hdate, h⟩ := Option.bind_eq_some_iff.1 h
  obtain ⟨-, h⟩ := Option.ite_none_right_eq_some.1 h
  obtain rfl := Option.some.inj h
  obtain ⟨hlow, hhigh⟩ := toDays_bounds hdate
  exact Moment.back_isBounded hlow hhigh (Time.isBounded_of (readFixed_le hhour)
    (readFixed_le hminute) (readFixed_le hsecond) (readFraction_lt hnano))
    (readOffset_bounds hoffset)

theorem localOf?_isBounded {blank : Bool} (h : localOf? blank s = some m) : m.IsBounded := by
  obtain ⟨⟨date, cs⟩, hdate, h⟩ := Option.bind_eq_some_iff.1 h
  obtain ⟨hlow, hhigh⟩ := readDate_bounds hdate
  dsimp only at h
  split at h
  all_goals
    obtain ⟨cs, -, h⟩ := Option.bind_eq_some_iff.1 h
    split at h
    · next htime =>
      obtain rfl := Option.some.inj h
      exact ⟨hlow.le, hhigh.le, readTime_isBounded htime⟩
    · simp at h

theorem dateOf?_isBounded {d : Date} (h : dateOf? s = some d) : (Moment.ofDate d).IsBounded := by
  rw [dateOf?] at h
  split at h
  · next hdate =>
    obtain rfl := Option.some.inj h
    obtain ⟨hlow, hhigh⟩ := readDate_bounds hdate
    exact ⟨hlow.le, hhigh.le, midnight_isBounded⟩
  · simp at h

theorem momentOf?_isBounded (h : momentOf? s = some m) : m.IsBounded := by
  rcases (Option.orElse_eq_some _ _ _).1 h with h | ⟨-, h⟩
  · exact offsetOf?_isBounded h
  rcases (Option.orElse_eq_some _ _ _).1 h with h | ⟨-, h⟩
  · exact localOf?_isBounded h
  rcases (Option.orElse_eq_some _ _ _).1 h with h | ⟨-, h⟩
  · exact localOf?_isBounded h
  obtain ⟨d, hd, rfl⟩ := Option.map_eq_some_iff.1 h
  exact dateOf?_isBounded hd

namespace Moment

variable {m : Moment}

theorem IsBounded.day_range (h : m.IsBounded) :
    -(256 ^ 4) ≤ 2 * m.day ∧ 2 * m.day < 256 ^ 4 := by
  obtain ⟨hleast, hgreatest, -⟩ := h
  rw [farthest] at hleast hgreatest
  omega

theorem IsBounded.micros_range (h : m.IsBounded) :
    -(256 ^ 8) ≤ 2 * m.toMicros ∧ 2 * m.toMicros < 256 ^ 8 := by
  obtain ⟨hleast, hgreatest, hsecond, hnano⟩ := h
  simp only [farthest, secondsOfDay, nanosPerSecond] at hleast hgreatest hsecond hnano
  simp only [toMicros, secondsOfDay, nanosPerSecond]
  generalize hn : (m.day * (86400 : Nat) + m.time.second) * (1000000000 : Nat) + m.time.nano = nanos
  have hlow := Int.tdiv_le_tdiv (by decide : (0 : Int) < 1000)
    (by omega : -9000000000000000000 * 1000 ≤ nanos)
  have hhigh := Int.tdiv_le_tdiv (by decide : (0 : Int) < 1000)
    (by omega : nanos ≤ 9000000000000000000 * 1000)
  rw [Int.mul_tdiv_cancel _ (by decide)] at hlow hhigh
  omega

end Moment

end Listing.Calendar
