import Listing.Number.Power

namespace Listing.Wire

abbrev Bytes := List UInt8

def ofNat : Nat → Nat → Bytes
  | 0, _ => []
  | width + 1, n => ofNat width (n / 256) ++ [UInt8.ofNat n]

def ofInt (width : Nat) (i : Int) : Bytes := ofNat width (i % 256 ^ width).toNat

def toNat (bytes : Bytes) : Nat := bytes.foldl (fun n b ↦ 256 * n + b.toNat) 0

def toInt (bytes : Bytes) : Int :=
  let n := toNat bytes
  if 2 * n < 256 ^ bytes.length then n else n - 256 ^ bytes.length

def nat? (width : Nat) (bytes : Bytes) : Option Nat :=
  if bytes.length = width then some (toNat bytes) else none

def int? (width : Nat) (bytes : Bytes) : Option Int :=
  if bytes.length = width then some (toInt bytes) else none

def split? (width : Nat) (bytes : Bytes) : Option (Bytes × Bytes) :=
  if bytes.length < width then none else some (bytes.take width, bytes.drop width)

def takeNat? (width : Nat) (bytes : Bytes) : Option (Nat × Bytes) :=
  (split? width bytes).map fun (front, rest) ↦ (toNat front, rest)

def takeInt? (width : Nat) (bytes : Bytes) : Option (Int × Bytes) :=
  (split? width bytes).map fun (front, rest) ↦ (toInt front, rest)

@[simp] theorem length_ofNat (width n : Nat) : (ofNat width n).length = width := by
  induction width generalizing n with
  | zero => rfl
  | succ width ih => simp [ofNat, ih]

@[simp] theorem length_ofInt (width : Nat) (i : Int) : (ofInt width i).length = width :=
  length_ofNat _ _

theorem toNat_append (a : Bytes) (b : UInt8) : toNat (a ++ [b]) = 256 * toNat a + b.toNat := by
  simp [toNat]

theorem toNat_ofNat (width n : Nat) : toNat (ofNat width n) = n % 256 ^ width := by
  induction width generalizing n with
  | zero => simp [ofNat, toNat, Nat.mod_one]
  | succ width ih =>
    rw [ofNat, toNat_append, ih, Nat.pow_succ', Nat.mod_mul]
    simp
    omega

end Listing.Wire
