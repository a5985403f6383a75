import Listing.Number.Reading
import Listing.Wire.Bytes

namespace Listing.Wire

open Number

structure Numeric where
  negative : Bool
  coefficient : Nat
  places : Nat
  deriving DecidableEq, Repr

namespace Numeric

def bound : Nat := 0x1000000000000000000000000

def maxPlaces : Nat := 28

def ofInt (i : Int) : Numeric := ⟨i < 0, i.natAbs, 0⟩

def roundedBy (c : Char) (n places : Nat) : Option (Nat × Nat) :=
  if c = '_' ∨ c = '.' then some (n, places)
  else if !isDigit c then none
  else if digitValue c < 5 then some (n, places)
  else if n + 1 < bound then some (n + 1, places)
  else if places = 0 then none
  else some ((n + 5) / 10, places - 1)

/-- A coefficient that a 64-bit word might not hold with one more digit. Behind the last place a
separator is passed over only after such a coefficient. -/
def isLong (n : Nat) : Bool := 1844674407370954906 ≤ n

/-- Digits with at most one point, and with separators anywhere after the first digit. What does not
fit is rounded by its first digit alone, and nothing after that is read. -/
def readDigits (point seen : Bool) (n places : Nat) : List Char → Option (Nat × Nat)
  | [] => if seen then some (n, places) else none
  | '.' :: cs => if point then none else readDigits true seen n places cs
  | '_' :: cs => if seen then readDigits point true n places cs else none
  | c :: cs =>
    let next := 10 * n + digitValue c
    let nextPlaces := if point then places + 1 else 0
    if !isDigit c then none
    else if bound ≤ next then if point then roundedBy c n places else none
    else if point && maxPlaces ≤ nextPlaces then
      match cs with
      | [] => some (next, nextPlaces)
      | '_' :: rest =>
        if isLong n then readDigits point true next nextPlaces rest else some (next, nextPlaces)
      | d :: _ => roundedBy d next nextPlaces
    else readDigits point true next nextPlaces cs

def ofText? (s : String) : Option Numeric :=
  let read (negative : Bool) (cs : List Char) : Option Numeric :=
    (readDigits false false 0 0 cs).map fun (n, places) ↦
      ⟨negative && n ≠ 0, n, places % (maxPlaces + 1)⟩
  match s.toList with
  | '-' :: cs => read true cs
  | '+' :: cs => read false cs
  | cs => read false cs

/-- `m * 2 ^ -k` as `m' * 10 ^ e`, which loses the last bits where `m * 5 ^ k` is too large. -/
def halve : Nat → Nat → Int → Nat × Int
  | 0, m, e => (m, e)
  | k + 1, m, e =>
    if m % 2 = 0 then halve k (m / 2) (e + 1)
    else if 5 * m < bound then halve k (5 * m) e
    else halve k (m / 2) (e + 1)

def double : Nat → Nat → Int → Nat × Int
  | 0, m, e => (m, e)
  | k + 1, m, e => if 2 * m < bound then double k (2 * m) (e - 1) else double k (m / 5) e

def scaleUp? (m k : Nat) : Option Nat := if m * 10 ^ k < bound then some (m * 10 ^ k) else none

def dropPlace (m : Nat) : Nat := if 5 ≤ m % 10 then m / 10 + 1 else m / 10

def clip : Nat → Nat → Nat → Nat × Nat
  | 0, m, places => (m, places)
  | k + 1, m, places =>
    if maxPlaces < places then
      if m / 10 = 0 then (0, 0) else clip k (dropPlace m) (places - 1)
    else (m, places)

def shorten : Nat → Nat → Nat × Nat
  | m, 0 => (m, 0)
  | m, places + 1 => if 2 ^ 52 ≤ m then shorten (dropPlace m) places else (m, places + 1)

def strip : Nat → Nat → Nat × Nat
  | m, 0 => (m, 0)
  | m, places + 1 => if m % 10 = 0 then strip (m / 10) places else (m, places + 1)

def ofDouble? (x : Double) : Option Numeric :=
  match x.unpack with
  | .finite negative 0 _ => some ⟨negative, 0, 0⟩
  | .finite negative m q =>
    let (m, e) := if q ≤ 0 then halve (-q).toNat m q else double q.toNat m q
    (scaleUp? m e.toNat).map fun m ↦
      let (m, places) := clip (-e).toNat m (-e).toNat
      let (m, places) := shorten m places
      let (m, places) := strip m places
      ⟨negative, m, places⟩
  | _ => none

def text (x : Numeric) : String :=
  let digits := Nat.toDigits 10 x.coefficient
  let padded := List.replicate (x.places + 1 - digits.length) '0' ++ digits
  let whole := padded.take (padded.length - x.places)
  let fraction := padded.drop (padded.length - x.places)
  String.ofList ((if x.negative then ['-'] else []) ++ whole ++
    if fraction = [] then [] else '.' :: fraction)

def groups (n : Nat) : List Nat :=
  if n = 0 then [] else groups (n / 10000) ++ [n % 10000]

def negativeSign : Nat := 0x4000

def toBytes (x : Numeric) : Bytes :=
  if x.coefficient = 0 then ofNat 8 0
  else
    let fractional := (x.places + 3) / 4
    let all := groups (x.coefficient * 10 ^ (4 * fractional - x.places))
    let zeros := (all.reverse.takeWhile (· == 0)).length
    let kept := all.take (all.length - min zeros fractional)
    let weight : Int := (all.length : Int) - fractional - 1
    let sign := if x.negative then negativeSign else 0
    ofNat 2 kept.length ++ Wire.ofInt 2 weight ++ ofNat 2 sign ++ ofNat 2 x.places ++
      kept.flatMap (ofNat 2)

def takeGroups : Nat → Bytes → Option (List Nat)
  | 0, _ => some []
  | count + 1, bytes => do
    let (group, rest) ← takeNat? 2 bytes
    let groups ← takeGroups count rest
    some (group :: groups)

def wholeOf? : Nat → List Nat → Option Nat
  | n, [] => some n
  | n, group :: groups =>
    let next := 10000 * n + group
    if next < bound then wholeOf? next groups else none

/-- A ratio to as many places as leave room, a half to the even neighbour. -/
def fit? (n places : Nat) : Option (Nat × Nat) :=
  (List.range (places + 1)).findSome? fun k ↦
    let m := roundDiv n (10 ^ k)
    if m < bound then some (m, places - k) else none

def add? (n places m morePlaces : Nat) : Option (Nat × Nat) :=
  if n = 0 then some (m, morePlaces)
  else if m = 0 then some (n, places)
  else
    let most := max places morePlaces
    fit? (n * 10 ^ (most - places) + m * 10 ^ (most - morePlaces)) most

/-- Groups after the point are added one by one. The first one past the last place only decides
whether that is rounded up. -/
def addFraction? : Nat × Nat → Nat → List Nat → Option (Nat × Nat)
  | sum, _, [] => some sum
  | sum, power, group :: groups =>
    let next :=
      if power ≤ maxPlaces then add? sum.1 sum.2 group power
      else if power = maxPlaces + 4 ∧ 5000 ≤ group then add? sum.1 sum.2 1 maxPlaces
      else some sum
    next.bind fun sum ↦ addFraction? sum (power + 4) groups

def ofGroups? (weight : Int) (groups : List Nat) : Option (Nat × Nat) := do
  let wholeGroups := (weight + 1).toNat
  let whole ← wholeOf? 0 (groups.take wholeGroups)
  let missing := wholeGroups - groups.length
  let start ← if missing < 8 then scaleUp? whole (4 * missing) else none
  addFraction? (start, 0) (4 * (1 + (-weight - 1).toNat)) (groups.drop wholeGroups)

def extend : Nat → Nat → Nat → Nat × Nat
  | 0, n, places => (n, places)
  | k + 1, n, places =>
    if 10 * n < bound ∧ places < maxPlaces then extend k (10 * n) (places + 1) else (n, places)

/-- The same number with other places, rounded by the first digit that is dropped. -/
def rescale (n places wanted : Nat) : Nat × Nat :=
  if n = 0 then (0, min wanted maxPlaces)
  else if wanted < places then (dropPlace (n / 10 ^ (places - wanted - 1)), wanted)
  else extend (wanted - places) n places

def ofBytes? (bytes : Bytes) : Option Numeric := do
  let (count, bytes) ← takeNat? 2 bytes
  let (weight, bytes) ← takeInt? 2 bytes
  let (sign, bytes) ← takeNat? 2 bytes
  let (wanted, bytes) ← takeNat? 2 bytes
  let groups ← takeGroups count bytes
  if sign = 0 ∨ sign = negativeSign then
    let (n, places) ← ofGroups? weight groups
    let (n, places) := rescale n places wanted
    some ⟨sign = negativeSign, n, places⟩
  else none

end Numeric

end Listing.Wire
