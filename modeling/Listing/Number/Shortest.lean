import Listing.Number.Binary

namespace Listing.Number

structure Decimal where
  digits : Nat
  power : Int
  deriving DecidableEq, Repr

/-- The interval of reals that round to a number, and the number itself, over one denominator. -/
structure Surroundings where
  low : Nat
  value : Nat
  high : Nat
  denominator : Nat
  /-- Whether the two ends round to the number too. -/
  closed : Bool

/-- Below a power of two the next number is half as far away, unless it is among the least. -/
def Format.surroundings (f : Format) (m : Nat) (q : Int) : Surroundings :=
  let below := if m = 2 ^ f.fraction ∧ f.leastPower < q then 1 else 2
  let scale := 2 ^ (q - 2).toNat
  { low := (4 * m - below) * scale
    value := 4 * m * scale
    high := (4 * m + 2) * scale
    denominator := 2 ^ (2 - q).toNat
    closed := m % 2 = 0 }

namespace Surroundings

def contains (s : Surroundings) (n d : Nat) : Bool :=
  let a := n * s.denominator
  if s.closed then s.low * d ≤ a && a ≤ s.high * d else s.low * d < a && a < s.high * d

def onGrid? (s : Surroundings) (power : Int) : Option Nat :=
  let up := 10 ^ power.toNat
  let down := 10 ^ (-power).toNat
  let below := s.value * down / (s.denominator * up)
  let hit (c : Nat) : Bool := s.contains (c * up) down
  let twice := 2 * s.value * down
  let middle := (2 * below + 1) * up * s.denominator
  if hit below && (!hit (below + 1) || twice < middle || (twice == middle && below % 2 == 0)) then
    some below
  else if hit (below + 1) then some (below + 1)
  else none

end Surroundings

/-- The least `k` with `n / d < 10 ^ k`, from a guess by the binary logarithm. -/
def decimalPoint (n d : Nat) : Int :=
  let guess : Int := (log2Ratio n d * 30103) / 100000 - 1
  let below (k : Int) : Bool := n * 10 ^ (-k).toNat < d * 10 ^ k.toNat
  ([guess, guess + 1, guess + 2, guess + 3].find? below).getD (guess + 4)

/-- The shortest decimal of `m * 2 ^ q`, for positive `m`. Seventeen digits always suffice. -/
def Format.shortest (f : Format) (m : Nat) (q : Int) : Decimal :=
  let s := f.surroundings m q
  let point := decimalPoint s.value s.denominator
  let grids := (List.range 17).map fun n ↦ point - (n + 1 : Nat)
  match grids.findSome? fun power ↦ (s.onGrid? power).map fun c ↦ (c, power) with
  | some (c, power) => ⟨c, power⟩
  | none => ⟨0, 0⟩

def Decimal.layout (x : Decimal) : List Char × Int :=
  let digits := Nat.toDigits 10 x.digits
  let kept := (digits.reverse.dropWhile (· == '0')).reverse
  (kept, digits.length + x.power)

def positional (digits : List Char) (point : Int) : List Char :=
  if point ≤ 0 then
    '0' :: '.' :: (List.replicate (-point).toNat '0' ++ digits)
  else if digits.length ≤ point.toNat then
    digits ++ List.replicate (point.toNat - digits.length) '0'
  else digits.take point.toNat ++ '.' :: digits.drop point.toNat

def scientific (digits : List Char) (point : Int) : List Char :=
  let exponent := point - 1
  let mark := if exponent < 0 then '-' else '+'
  let mantissa := match digits with
    | d :: e :: rest => d :: '.' :: e :: rest
    | short => short
  mantissa ++ 'e' :: mark :: Nat.toDigits 10 exponent.natAbs

namespace Double

def signText (negative : Bool) : List Char := if negative then ['-'] else []

def text (x : Double) : String :=
  String.ofList <| match x.unpack with
    | .nan => ['N', 'a', 'N']
    | .infinite negative => signText negative ++ ['i', 'n', 'f']
    | .finite negative 0 _ => signText negative ++ ['0']
    | .finite negative m q =>
      let (digits, point) := (Format.binary64.shortest m q).layout
      signText negative ++ positional digits point

/-- As a number of a JSON text: always with a point or an exponent, the latter outside of
`10 ^ (-5)` to `10 ^ 16`. What is not finite is no number there. -/
def jsonText? (x : Double) : Option (List Char) :=
  match x.unpack with
  | .nan | .infinite _ => none
  | .finite negative 0 _ => some (signText negative ++ ['0', '.', '0'])
  | .finite negative m q =>
    let (digits, point) := (Format.binary64.shortest m q).layout
    some <| signText negative ++
      if -5 < point ∧ point ≤ 16 then
        let written := positional digits point
        if digits.length ≤ point.toNat then written ++ ['.', '0'] else written
      else scientific digits point

end Double

end Listing.Number
