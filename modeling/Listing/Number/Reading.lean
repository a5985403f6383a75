import Listing.Number.Binary
import Listing.Number.Range

namespace Listing.Number

def isDigit (c : Char) : Bool := '0' ≤ c && c ≤ '9'

def digitValue (c : Char) : Nat := c.toNat - '0'.toNat

def digitsValue (cs : List Char) : Nat := cs.foldl (fun n c ↦ 10 * n + digitValue c) 0

/-- Why a text is no integer of the wanted width. -/
inductive IntegerProblem
  | empty
  | invalidDigit
  | tooLarge
  | tooSmall
  deriving DecidableEq, Repr

def IntegerProblem.message : IntegerProblem → String
  | .empty => "cannot parse integer from empty string"
  | .invalidDigit => "invalid digit found in string"
  | .tooLarge => "number too large to fit in target type"
  | .tooSmall => "number too small to fit in target type"

/-- Digits that go on from `n`, with a value of at most `most`. The first character that goes wrong
decides in which way the text fails. -/
def readDigits (most : Nat) (past : IntegerProblem) : Nat → List Char → Except IntegerProblem Nat
  | n, [] => .ok n
  | n, c :: cs =>
    let next := 10 * n + digitValue c
    if !isDigit c then .error .invalidDigit
    else if most < next then .error past
    else readDigits most past next cs

def readInt (low high : Int) (cs : List Char) : Except IntegerProblem Int :=
  let positive (digits : List Char) : Except IntegerProblem Int :=
    (readDigits high.toNat .tooLarge 0 digits).map fun n ↦ (n : Int)
  match cs with
  | [] => .error .empty
  | ['-'] | ['+'] => .error .invalidDigit
  | '-' :: digits =>
    if low < 0 then (readDigits low.natAbs .tooSmall 0 digits).map fun n ↦ -(n : Int)
    else .error .invalidDigit
  | '+' :: digits => positive digits
  | digits => positive digits

def readWord (cs : List Char) : Except IntegerProblem Nat :=
  (readInt 0 maxWord cs).map Int.toNat

/-- The number nearest to `n * 10 ^ power`. Powers that decide the outcome alone are cut off before
they are computed. -/
def Format.ofDecimal (f : Format) (n : Nat) (power : Int) : Nat :=
  let places : Int := (Nat.toDigits 10 n).length
  if n = 0 ∨ places + power < -400 then 0
  else if places + power > 400 then f.infinityBits
  else f.round (n * 10 ^ power.toNat) (10 ^ (-power).toNat)

inductive FloatProblem
  | empty
  | invalid
  deriving DecidableEq, Repr

def FloatProblem.message : FloatProblem → String
  | .empty => "cannot parse float from empty string"
  | .invalid => "invalid float literal"

def lowerAscii (c : Char) : Char := if 'A' ≤ c ∧ c ≤ 'Z' then Char.ofNat (c.toNat + 32) else c

def readExponent : List Char → Option Int
  | [] => some 0
  | mark :: rest =>
    if mark ≠ 'e' ∧ mark ≠ 'E' then none
    else
      let (negative, digits) := match rest with
        | '-' :: ds => (true, ds)
        | '+' :: ds => (false, ds)
        | ds => (false, ds)
      if digits = [] ∨ !digits.all isDigit then none
      else some (if negative then -(digitsValue digits : Int) else digitsValue digits)

/-- The magnitude of an unsigned text: digits around an optional point, at least one of them, and an
optional exponent; or the name of an infinity or of what is not a number. -/
def Format.ofUnsignedText? (f : Format) (cs : List Char) : Option Nat :=
  let name := cs.map lowerAscii
  if name = ['i', 'n', 'f'] ∨ name = ['i', 'n', 'f', 'i', 'n', 'i', 't', 'y'] then
    some f.infinityBits
  else if name = ['n', 'a', 'n'] then some f.nanBits
  else
    let whole := cs.takeWhile isDigit
    let afterWhole := cs.dropWhile isDigit
    let (fraction, rest) := match afterWhole with
      | '.' :: more => (more.takeWhile isDigit, more.dropWhile isDigit)
      | more => ([], more)
    if whole = [] ∧ fraction = [] then none
    else (readExponent rest).map fun e ↦
      f.ofDecimal (digitsValue (whole ++ fraction)) (e - fraction.length)

def Format.ofText (f : Format) (cs : List Char) : Except FloatProblem Nat :=
  let read (negative : Bool) (rest : List Char) : Except FloatProblem Nat :=
    match f.ofUnsignedText? rest with
    | some bits => .ok (f.signed negative bits)
    | none => .error .invalid
  match cs with
  | [] => .error .empty
  | '-' :: rest => read true rest
  | '+' :: rest => read false rest
  | rest => read false rest

end Listing.Number
