import Listing.Proofs.Bytes
import Listing.Proofs.Doubles
import Listing.Wire.Parameter

namespace Listing.Wire

open Number

/-- The integers of a type: how many bytes one takes, and the least and the greatest of them. -/
structure IntegerFormat where
  width : Nat
  low : Int
  high : Int
  deriving DecidableEq, Repr

namespace IntegerFormat

def long : IntegerFormat := ⟨8, minLong, maxLong⟩

def oid : IntegerFormat := ⟨4, 0, maxOid⟩

def Holds (f : IntegerFormat) (i : Int) : Prop := f.low ≤ i ∧ i ≤ f.high

instance (f : IntegerFormat) (i : Int) : Decidable (f.Holds i) :=
  inferInstanceAs (Decidable (f.low ≤ i ∧ i ≤ f.high))

/-- The integer in exactly as many bytes as the format has, in two's complement unless there are no
negative ones. -/
def value? (f : IntegerFormat) (bytes : Bytes) : Option Int :=
  if f.low < 0 then int? f.width bytes else (nat? f.width bytes).map fun n : Nat ↦ (n : Int)

/-- The outcome of writing an integer: its bytes where the format holds it, and a refusal where it
does not. -/
structure BindsExactly (f : IntegerFormat) (i : Int)
    (x : Except EncodingProblem (Option Bytes)) : Prop where
  bound : ∀ b, x = .ok b → ∃ bytes, b = some bytes ∧ f.value? bytes = some i
  refused : (∃ problem, x = .error problem) ↔ ¬f.Holds i

def IsFull (f : IntegerFormat) : Prop :=
  (f.low < 0 ∧ 2 * f.low = -(256 ^ f.width) ∧ 2 * (f.high + 1) = 256 ^ f.width) ∨
    (f.low = 0 ∧ f.high + 1 = 256 ^ f.width)

def encode (f : IntegerFormat) (i : Int) : Except EncodingProblem (Option Bytes) :=
  (encodeRanged f.width f.low f.high i).map some

variable {f : IntegerFormat} {i j : Int}

theorem encode_of_holds (h : f.Holds i) : f.encode i = .ok (some (ofInt f.width i)) := by
  rw [encode, encodeRanged, if_neg (by have := h.1; omega), if_neg (by have := h.2; omega)]
  rfl

theorem encode_of_not_holds (h : ¬f.Holds i) : ∃ problem, f.encode i = .error problem := by
  rw [encode, encodeRanged]
  by_cases hlow : i < f.low
  · rw [if_pos hlow]
    exact ⟨_, rfl⟩
  · have hhigh : f.high < i := by
      by_contra hle
      exact h ⟨by omega, by omega⟩
    rw [if_neg hlow, if_pos hhigh]
    exact ⟨_, rfl⟩

theorem encode_eq_ok {b : Option Bytes} :
    f.encode i = .ok b ↔ f.Holds i ∧ b = some (ofInt f.width i) := by
  by_cases h : f.Holds i
  · rw [encode_of_holds h, Except.ok.injEq]
    exact ⟨fun hb ↦ ⟨h, hb.symm⟩, fun hb ↦ hb.2.symm⟩
  · obtain ⟨problem, hproblem⟩ := encode_of_not_holds h
    simp [hproblem, h]

theorem value?_ofInt (hf : f.IsFull) (h : f.Holds i) : f.value? (ofInt f.width i) = some i := by
  obtain ⟨hleast, hgreatest⟩ := h
  rw [value?]
  rcases hf with ⟨hsign, hlow, hhigh⟩ | ⟨hzero, hhigh⟩
  · rw [if_pos hsign, int?, if_pos (length_ofInt _ _), toInt_ofInt (by omega) (by omega)]
  · rw [if_neg (by omega), nat?, if_pos (length_ofInt _ _), Option.map_some, toNat_ofInt,
      Int.emod_eq_of_lt (by omega) (by omega)]

theorem bindsExactly_encode_iff (hf : f.IsFull) :
    f.BindsExactly i (f.encode j) ↔ (f.Holds i ∨ f.Holds j → i = j) := by
  constructor
  · rintro ⟨hbound, hrefused⟩ hholds
    have hj : f.Holds j := by
      by_contra hj
      exact hrefused.1 (encode_of_not_holds hj) (hholds.resolve_right hj)
    obtain ⟨bytes, hbytes, hvalue⟩ := hbound _ (encode_of_holds hj)
    obtain rfl := Option.some.inj hbytes
    rw [value?_ofInt hf hj] at hvalue
    exact (Option.some.inj hvalue).symm
  · intro h
    by_cases hj : f.Holds j
    · obtain rfl := h (.inr hj)
      rw [encode_of_holds hj]
      refine ⟨fun b hb ↦ ⟨_, (Except.ok.inj hb).symm, value?_ofInt hf hj⟩, ?_⟩
      exact iff_of_false (by simp) (not_not_intro hj)
    · obtain ⟨problem, hproblem⟩ := encode_of_not_holds hj
      have hi : ¬f.Holds i := fun hi ↦ hj (h (.inl hi) ▸ hi)
      rw [hproblem]
      exact ⟨by simp, iff_of_true ⟨problem, rfl⟩ hi⟩

end IntegerFormat

def ColumnType.integer? : ColumnType → Option IntegerFormat
  | .int2 => some ⟨2, minShort, maxShort⟩
  | .int4 => some ⟨4, minInt, maxInt⟩
  | .int8 => some .long
  | .oid => some .oid
  | _ => none

variable {t : ColumnType} {f : IntegerFormat} {i n : Int} {x : Double}

theorem integer?_eq_some (h : t.integer? = some f) :
    (t = .int2 ∧ f = ⟨2, minShort, maxShort⟩) ∨ (t = .int4 ∧ f = ⟨4, minInt, maxInt⟩) ∨
      (t = .int8 ∧ f = .long) ∨ (t = .oid ∧ f = .oid) := by
  cases t <;> simp_all [ColumnType.integer?]

theorem integer?_of_ne_oid (h : t.integer? = some f) (ht : t ≠ .oid) :
    (t = .int2 ∧ f = ⟨2, minShort, maxShort⟩) ∨ (t = .int4 ∧ f = ⟨4, minInt, maxInt⟩) ∨
      (t = .int8 ∧ f = .long) := by
  obtain hf | hf | hf | ⟨rfl, -⟩ := integer?_eq_some h
  · exact .inl hf
  · exact .inr (.inl hf)
  · exact .inr (.inr hf)
  · exact absurd rfl ht

theorem integer?_isFull (h : t.integer? = some f) : f.IsFull := by
  unfold IntegerFormat.IsFull
  obtain ⟨-, rfl⟩ | ⟨-, rfl⟩ | ⟨-, rfl⟩ | ⟨-, rfl⟩ := integer?_eq_some h <;> decide

theorem encode_int (h : t.integer? = some f) (hi : IntegerFormat.long.Holds i) :
    encode t (.int i) = f.encode i := by
  obtain ⟨rfl, rfl⟩ | ⟨rfl, rfl⟩ | ⟨rfl, rfl⟩ | ⟨rfl, rfl⟩ := integer?_eq_some h
  case inr.inr.inl => exact (IntegerFormat.encode_of_holds hi).symm
  all_goals rfl

theorem holds_clampLong (i : Int) : IntegerFormat.long.Holds (clampLong i) := by
  have hrange : minLong ≤ maxLong := by decide
  show minLong ≤ clampLong i ∧ clampLong i ≤ maxLong
  rw [clampLong]
  omega

theorem encode_float (h : t.integer? = some f) (ht : t ≠ .oid) :
    encode t (.float x) = match x.toInt? with
      | some n => f.encode (clampLong n)
      | none => .error (.notWhole x) := by
  have hwhole : encode t (.float x) = (encodeWhole t x).map some := by
    obtain ⟨rfl, -⟩ | ⟨rfl, -⟩ | ⟨rfl, -⟩ := integer?_of_ne_oid h ht <;> rfl
  rw [hwhole, encodeWhole]
  cases x.toInt? with
  | none => rfl
  | some n => exact encode_int h (holds_clampLong n)

/-- What is cut off at the ends of 64 bits makes no difference to the narrower types. -/
theorem clampLong_exact_iff (h : t.integer? = some f) (ht : t ≠ .oid) :
    (f.Holds n ∨ f.Holds (clampLong n) → n = clampLong n) ↔ (t = .int8 → f.Holds n) := by
  obtain ⟨rfl, rfl⟩ | ⟨rfl, rfl⟩ | ⟨rfl, rfl⟩ := integer?_of_ne_oid h ht
  all_goals
    simp only [IntegerFormat.Holds, IntegerFormat.long, clampLong, minShort, maxShort, minInt,
      maxInt, minLong, maxLong, reduceCtorEq, false_implies, iff_true, true_implies]
    omega

/-- Integers of 64 bits are bound exactly as every integer type, and so are doubles that stand for
an integer, unless they are past the range of the widest, which are bound as the end of it. Other
doubles are refused. -/
theorem bindsExactly_encode (h : t.integer? = some f) :
    (∀ i, IntegerFormat.long.Holds i → f.BindsExactly i (encode t (.int i))) ∧
    (t ≠ .oid → ∀ x (n : ℤ), x.value? = some (n : ℚ) →
      (f.BindsExactly n (encode t (.float x)) ↔ (t = .int8 → f.Holds n)) ∧
      (t = .int8 → encode t (.float x) = .ok (some (ofInt 8 (clampLong n))))) ∧
    (t ≠ .oid → ∀ x (q : ℚ), x.value? = some q → (∀ n : ℤ, q ≠ n) →
      encode t (.float x) = .error (.notWhole x)) := by
  have hfull := integer?_isFull h
  refine ⟨fun i hi ↦ ?_, fun ht x n hx ↦ ⟨?_, ?_⟩, fun ht x q hx hq ↦ ?_⟩
  · rw [encode_int h hi, IntegerFormat.bindsExactly_encode_iff hfull]
    exact fun _ ↦ rfl
  · rw [encode_float h ht, Double.toInt?_eq_some.2 hx, IntegerFormat.bindsExactly_encode_iff hfull]
    exact clampLong_exact_iff h ht
  · rintro rfl
    obtain rfl := Option.some.inj h
    rw [encode_float h ht, Double.toInt?_eq_some.2 hx]
    exact IntegerFormat.encode_of_holds (holds_clampLong n)
  · have hnone : x.toInt? = none := by
      refine Option.eq_none_iff_forall_ne_some.2 fun n hn ↦ hq n ?_
      exact Option.some.inj (hx.symm.trans (Double.toInt?_eq_some.1 hn))
    rw [encode_float h ht, hnone]

def half : Double := .ofBits 0x3FE0000000000000

/-- The least whole number past the range of 64 bits. -/
def pastLong : Double := .ofBits 0x43E0000000000000

/-- Up to here all whole numbers are doubles. -/
def lastDense : Double := .ofBits 0x4340000000000000

theorem value?_half : half.value? = some (1 / 2) := by
  have hunpack : half.unpack = .finite false (2 ^ 52) (-53) := by decide +kernel
  rw [Double.value?, hunpack, Option.some.injEq, Double.signed]
  norm_num

theorem value?_pastLong : pastLong.value? = some ((9223372036854775808 : ℤ) : ℚ) :=
  Double.toInt?_eq_some.1 (by decide +kernel)

theorem bindsExactly_encode_doubles :
    IntegerFormat.long.BindsExactly (-7) (encode .int8 (.int (-7))) ∧
      IntegerFormat.long.BindsExactly 9007199254740992 (encode .int8 (.float lastDense)) ∧
      encode .int8 (.float pastLong) = .ok (some (ofInt 8 maxLong)) ∧
      encode .int8 (.float half) = .error (.notWhole half) := by
  have hne : ColumnType.int8 ≠ .oid := by decide
  obtain ⟨hint, hwhole, hbroken⟩ := bindsExactly_encode (t := .int8) rfl
  have hdense : lastDense.value? = some ((9007199254740992 : ℤ) : ℚ) :=
    Double.toInt?_eq_some.1 (by decide +kernel)
  have hnone : half.toInt? = none := by decide +kernel
  have hnot (n : ℤ) : (1 / 2 : ℚ) ≠ n := by
    intro h
    have hsome := Double.toInt?_eq_some.2 (value?_half.trans (congrArg some h))
    simp [hnone] at hsome
  exact ⟨hint (-7) (by decide), (hwhole hne _ _ hdense).1.2 fun _ ↦ by decide,
    (hwhole hne _ _ value?_pastLong).2 rfl, hbroken hne _ _ value?_half hnot⟩

/-- A whole double that the widest type does not hold is not refused, but bound as another
number. -/
theorem encode_pastLong : pastLong.value? = some ((9223372036854775808 : ℤ) : ℚ) ∧
    ¬IntegerFormat.long.Holds 9223372036854775808 ∧
    encode .int8 (.float pastLong) = .ok (some [0x7F, 0xFF, 0xFF, 0xFF, 0xFF, 0xFF, 0xFF, 0xFF]) ∧
    ¬IntegerFormat.long.BindsExactly 9223372036854775808 (encode .int8 (.float pastLong)) := by
  have hnot : ¬IntegerFormat.long.Holds 9223372036854775808 := by decide
  have hbytes : encode .int8 (.float pastLong) =
      .ok (some [0x7F, 0xFF, 0xFF, 0xFF, 0xFF, 0xFF, 0xFF, 0xFF]) := by
    rw [encode_float (f := .long) rfl (by decide), Double.toInt?_eq_some.2 value?_pastLong]
    decide +kernel
  refine ⟨value?_pastLong, hnot, hbytes, fun h ↦ ?_⟩
  obtain ⟨problem, hproblem⟩ := h.refused.2 hnot
  simp [hbytes] at hproblem

end Listing.Wire
