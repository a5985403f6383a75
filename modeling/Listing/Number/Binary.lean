import Listing.Number.Power

namespace Listing.Number

structure Format where
  fraction : Nat
  exponent : Nat
  deriving DecidableEq, Repr

namespace Format

def binary32 : Format := ⟨23, 8⟩

def binary64 : Format := ⟨52, 11⟩

def bias (f : Format) : Nat := 2 ^ (f.exponent - 1) - 1

def leastPower (f : Format) : Int := 1 - (f.bias : Int) - f.fraction

def infinityBits (f : Format) : Nat := (2 ^ f.exponent - 1) * 2 ^ f.fraction

def signBit (f : Format) : Nat := 2 ^ (f.fraction + f.exponent)

end Format

inductive Unpacked
  | nan
  | infinite (negative : Bool)
  | finite (negative : Bool) (m : Nat) (q : Int)
  deriving DecidableEq, Repr

def Format.unpack (f : Format) (bits : Nat) : Unpacked :=
  let fraction := bits % 2 ^ f.fraction
  let exponent := bits / 2 ^ f.fraction % 2 ^ f.exponent
  let negative := bits / f.signBit % 2 == 1
  if exponent + 1 = 2 ^ f.exponent then
    if fraction = 0 then .infinite negative else .nan
  else if exponent = 0 then .finite negative fraction f.leastPower
  else .finite negative (2 ^ f.fraction + fraction) (f.leastPower + (exponent - 1 : Nat))

/-- The nearest natural number to `n / d`, a tie to the even one. -/
def roundDiv (n d : Nat) : Nat :=
  let k := n / d
  let r := n % d
  if 2 * r > d || (2 * r == d && k % 2 == 1) then k + 1 else k

def scaled (n d : Nat) (q : Int) : Nat × Nat :=
  if q < 0 then (n * 2 ^ (-q).toNat, d) else (n, d * 2 ^ q.toNat)

def log2Ratio (n d : Nat) : Int :=
  let e : Int := (Nat.log2 n : Int) - Nat.log2 d
  let (n', d') := scaled n d e
  if n' < d' then e - 1 else e

/-- The bits of the number nearest to `n / d`, without a sign. A carry out of the fraction moves on
to the exponent field, and what is too large becomes the infinity. -/
def Format.round (f : Format) (n d : Nat) : Nat :=
  if n = 0 then 0
  else
    let q := max (log2Ratio n d - f.fraction) f.leastPower
    let (n', d') := scaled n d q
    min ((q - f.leastPower).toNat * 2 ^ f.fraction + roundDiv n' d') f.infinityBits

def Format.signed (f : Format) (negative : Bool) (bits : Nat) : Nat :=
  if negative then bits + f.signBit else bits

def Format.roundPower (f : Format) (m : Nat) (q : Int) : Nat :=
  let (n, d) := scaled m 1 (-q)
  f.round n d

def Format.nanBits (f : Format) : Nat := f.infinityBits + 2 ^ (f.fraction - 1)

def Format.convert (source target : Format) (bits : Nat) : Nat :=
  match source.unpack bits with
  | .nan =>
    let fraction := bits % 2 ^ source.fraction
    let kept := if source.fraction ≤ target.fraction
      then fraction * 2 ^ (target.fraction - source.fraction)
      else fraction / 2 ^ (source.fraction - target.fraction)
    let quiet := if kept / 2 ^ (target.fraction - 1) % 2 == 1 then kept
      else kept + 2 ^ (target.fraction - 1)
    target.signed (bits / source.signBit % 2 == 1) (target.infinityBits + quiet)
  | .infinite negative => target.signed negative target.infinityBits
  | .finite negative m q => target.signed negative (target.roundPower m q)

structure Double where
  bits : UInt64
  deriving DecidableEq, Repr, Inhabited

namespace Double

def ofBits (n : Nat) : Double := ⟨UInt64.ofNat n⟩

def unpack (x : Double) : Unpacked := Format.binary64.unpack x.bits.toNat

def ofRatio (negative : Bool) (n d : Nat) : Double :=
  ofBits (Format.binary64.signed negative (Format.binary64.round n d))

def ofInt (i : Int) : Double := ofRatio (i < 0) i.natAbs 1

def nan : Double := ofBits Format.binary64.nanBits

def isFinite (x : Double) : Bool :=
  match x.unpack with
  | .finite .. => true
  | _ => false

def toSingleBits (x : Double) : Nat := Format.binary64.convert Format.binary32 x.bits.toNat

def ofSingleBits (bits : Nat) : Double := ofBits (Format.binary32.convert Format.binary64 bits)

def toInt? (x : Double) : Option Int :=
  match x.unpack with
  | .finite negative m q =>
    let sign : Int → Int := fun i ↦ if negative then -i else i
    if 0 ≤ q then some (sign (m * 2 ^ q.toNat))
    else
      let d := 2 ^ (-q).toNat
      if m % d = 0 then some (sign ((m / d : Nat) : Int)) else none
  | _ => none

def mul (x y : Double) : Double :=
  match x.unpack, y.unpack with
  | .finite s m q, .finite t n r =>
    let (a, b) := scaled (m * n) 1 (-(q + r))
    ofRatio (s != t) a b
  | _, _ => nan

def div (x y : Double) : Double :=
  match x.unpack, y.unpack with
  | .finite s m q, .finite t n r =>
    let (a, b) := scaled m n (r - q)
    ofRatio (s != t) a b
  | _, _ => nan

def neg (x : Double) : Double := ofBits (x.bits.toNat + Format.binary64.signBit)

end Double

end Listing.Number
