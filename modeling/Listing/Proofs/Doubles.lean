import Listing.Number.Binary
import Mathlib.Algebra.Order.Field.Power
import Mathlib.Algebra.Order.Field.Rat
import Mathlib.Tactic.NormNum
import Mathlib.Tactic.Ring

namespace Listing.Number

theorem mul_two_zpow_eq_iff (a n q : ℤ) :
    (a : ℚ) * 2 ^ q = n ↔ a * 2 ^ q.toNat = n * 2 ^ (-q).toNat := by
  have hq : q = (q.toNat : ℤ) - ((-q).toNat : ℤ) := by omega
  have hpow : (2 : ℚ) ^ q = 2 ^ q.toNat / 2 ^ (-q).toNat := by
    conv_lhs => rw [hq]
    rw [zpow_sub₀ two_ne_zero, zpow_natCast, zpow_natCast]
  rw [hpow, ← mul_div_assoc, div_eq_iff (by positivity)]
  exact_mod_cast Iff.rfl

namespace Double

def signed (negative : Bool) (i : ℤ) : ℤ := if negative then -i else i

def value? (x : Double) : Option ℚ :=
  match x.unpack with
  | .finite negative m q => some (signed negative m * 2 ^ q)
  | _ => none

theorem signed_mul (negative : Bool) (i j : ℤ) :
    signed negative (i * j) = signed negative i * j := by
  cases negative <;> simp [signed]

theorem dvd_signed {negative : Bool} {i d : ℤ} : d ∣ signed negative i ↔ d ∣ i := by
  cases negative <;> simp [signed]

/-- A finite double is read as an integer exactly if it stands for it. -/
theorem toInt?_eq_some {x : Double} {n : ℤ} : x.toInt? = some n ↔ x.value? = some (n : ℚ) := by
  rw [toInt?, value?]
  cases x.unpack with
  | nan => simp
  | infinite _ => simp
  | finite negative m q =>
    simp only [Option.some.injEq, mul_two_zpow_eq_iff]
    by_cases hq : 0 ≤ q
    · have hzero : (-q).toNat = 0 := by omega
      rw [if_pos hq, Option.some.injEq, hzero, pow_zero, mul_one, ← signed_mul]
      rfl
    · have hzero : q.toNat = 0 := by omega
      have hpos : (0 : ℤ) < 2 ^ (-q).toNat := by positivity
      rw [if_neg hq, hzero, pow_zero, mul_one]
      by_cases hdvd : 2 ^ (-q).toNat ∣ m
      · obtain ⟨c, rfl⟩ := hdvd
        have hmul : ((2 ^ (-q).toNat * c : ℕ) : ℤ) = c * 2 ^ (-q).toNat := by
          push_cast
          ring
        rw [if_pos (Nat.mul_mod_right _ _), Nat.mul_div_cancel_left c (by positivity), hmul,
          signed_mul, mul_right_cancel_iff_of_pos hpos, Option.some.injEq]
        rfl
      · rw [if_neg fun hmod ↦ hdvd (Nat.dvd_of_mod_eq_zero hmod)]
        refine iff_of_false (by simp) fun heq ↦ hdvd ?_
        have hwhole : (2 ^ (-q).toNat : ℤ) ∣ m := dvd_signed.1 ⟨n, by rw [heq, mul_comm]⟩
        exact_mod_cast hwhole

end Double

end Listing.Number
