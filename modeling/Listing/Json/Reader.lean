import Listing.Datum
import Listing.Number.Reading

namespace Listing.Json

open Number

def isSpace (c : Char) : Bool := c == ' ' || c == '\n' || c == '\t' || c == '\r'

def skipSpace (cs : List Char) : List Char := cs.dropWhile isSpace

structure Numeral where
  negative : Bool
  whole : List Char
  /-- Digits after the point, empty without one. -/
  fraction : List Char
  /-- Sign and digits of the exponent. -/
  exponent : Option (Bool × List Char)
  deriving Repr

/-- Digits are collected while the value is a word. Further digits of the whole part only
raise the power of ten, further digits of the fraction change nothing. -/
structure Significand where
  value : Nat := 0
  power : Int := 0
  full : Bool := false

def Significand.pushWhole (s : Significand) (c : Char) : Significand :=
  let value := 10 * s.value + digitValue c
  if !s.full && value ≤ maxWord then { s with value := value }
  else { s with power := s.power + 1, full := true }

def Significand.pushFraction (s : Significand) (c : Char) : Significand :=
  let value := 10 * s.value + digitValue c
  if !s.full && value ≤ maxWord then { s with value := value, power := s.power - 1 }
  else { s with full := true }

def Numeral.significand (x : Numeral) : Significand :=
  let whole : Significand := x.whole.foldl Significand.pushWhole {}
  x.fraction.foldl Significand.pushFraction { whole with full := false }

def tenTo (n : Nat) : Double := Double.ofBits (Format.binary64.ofDecimal 1 n)

/-- The number `n * 10 ^ power`, by one multiplication or by divisions by powers of ten, each of
them rounded. Three divisions leave nothing of the largest significand. -/
def ofParts (n : Nat) (power : Int) : Option Double :=
  let x := Double.ofInt n
  if 308 < power then if n = 0 then some x else none
  else if 0 ≤ power then
    let y := x.mul (tenTo power.toNat)
    if y.isFinite then some y else none
  else if -308 ≤ power then some (x.div (tenTo (-power).toNat))
  else
    let y := x.div (tenTo 308)
    if -616 ≤ power then some (y.div (tenTo (-power - 308).toNat))
    else
      let z := y.div (tenTo 308)
      if -924 ≤ power then some (z.div (tenTo (-power - 616).toNat)) else some (Double.ofInt 0)

def Numeral.double? (x : Numeral) : Option Double :=
  let s := x.significand
  let magnitude := match x.exponent with
    | none => ofParts s.value s.power
    | some (negative, digits) =>
      let e := digitsValue digits
      if e ≤ maxInt then ofParts s.value (if negative then s.power - e else s.power + e)
      else if s.value ≠ 0 ∧ !negative then none
      else some (Double.ofInt 0)
  magnitude.map fun m ↦ if x.negative then m.neg else m

/-- A numeral without point and exponent is an integer if it fits; a negative zero is none. -/
def Numeral.datum (x : Numeral) : Datum :=
  let n := digitsValue x.whole
  let isWhole := x.fraction.isEmpty && x.exponent.isNone
  if isWhole && !x.negative && n ≤ maxWord then .int n
  else if isWhole && x.negative && n ≠ 0 && minLong ≤ -n then .int (-n)
  else match x.double? with
    | some d => .float d
    | none => .unreadable

def readFraction : List Char → Option (List Char × List Char)
  | '.' :: cs =>
    let digits := cs.takeWhile isDigit
    if digits = [] then none else some (digits, cs.dropWhile isDigit)
  | cs => some ([], cs)

def readExponentPart (cs : List Char) : Option (Option (Bool × List Char) × List Char) :=
  let digitsOf (negative : Bool) (cs : List Char) :=
    let digits := cs.takeWhile isDigit
    if digits = [] then none else some (some (negative, digits), cs.dropWhile isDigit)
  match cs with
  | c :: rest =>
    if c = 'e' ∨ c = 'E' then
      match rest with
      | '-' :: more => digitsOf true more
      | '+' :: more => digitsOf false more
      | more => digitsOf false more
    else some (none, cs)
  | [] => some (none, [])

def readNumeral (cs : List Char) : Option (Numeral × List Char) :=
  let (negative, cs) := match cs with
    | '-' :: rest => (true, rest)
    | rest => (false, rest)
  let whole := cs.takeWhile isDigit
  match whole with
  | [] | '0' :: _ :: _ => none
  | _ =>
    match readFraction (cs.dropWhile isDigit) with
    | none => none
    | some (fraction, rest) =>
      (readExponentPart rest).map fun (exponent, rest) ↦
        (⟨negative, whole, fraction, exponent⟩, rest)

/-- A character as it stands, or a 16-bit unit given by an escape. -/
inductive Unit16
  | plain (c : Char)
  | escaped (n : Nat)

def hexValue? (c : Char) : Option Nat :=
  if isDigit c then some (digitValue c)
  else if 'a' ≤ c ∧ c ≤ 'f' then some (c.toNat - 'a'.toNat + 10)
  else if 'A' ≤ c ∧ c ≤ 'F' then some (c.toNat - 'A'.toNat + 10)
  else none

def hexValueOf? (cs : List Char) : Option Nat :=
  cs.foldlM (fun n c ↦ (hexValue? c).map (16 * n + ·)) 0

def shortEscape? : Char → Option Char
  | '"' => some '"'
  | '\\' => some '\\'
  | '/' => some '/'
  | 'b' => some '\x08'
  | 'f' => some '\x0c'
  | 'n' => some '\n'
  | 'r' => some '\r'
  | 't' => some '\t'
  | _ => none

def readUnits : List Char → Option (List Unit16 × List Char)
  | [] => none
  | '"' :: cs => some ([], cs)
  | '\\' :: 'u' :: a :: b :: c :: d :: cs =>
    match hexValueOf? [a, b, c, d], readUnits cs with
    | some n, some (units, rest) => some (.escaped n :: units, rest)
    | _, _ => none
  | '\\' :: e :: cs =>
    match shortEscape? e, readUnits cs with
    | some c, some (units, rest) => some (.plain c :: units, rest)
    | _, _ => none
  | c :: cs =>
    if c.toNat < 0x20 ∨ c = '\\' then none
    else (readUnits cs).map fun (units, rest) ↦ (.plain c :: units, rest)

def isHigh (n : Nat) : Bool := 0xD800 ≤ n && n < 0xDC00

def isLow (n : Nat) : Bool := 0xDC00 ≤ n && n < 0xE000

/-- The characters that units stand for; two surrogates in a row are one character, and one alone is
none. -/
def charsOf? : List Unit16 → Option (List Char)
  | [] => some []
  | .plain c :: us => (charsOf? us).map (c :: ·)
  | .escaped high :: .escaped low :: us =>
    if isHigh high then
      if isLow low then
        (charsOf? us).map (Char.ofNat (0x10000 + (high - 0xD800) * 0x400 + (low - 0xDC00)) :: ·)
      else none
    else if isLow high then none
    else (charsOf? (.escaped low :: us)).map (Char.ofNat high :: ·)
  | .escaped n :: us =>
    if isHigh n || isLow n then none else (charsOf? us).map (Char.ofNat n :: ·)

def readText (cs : List Char) : Option (Option String × List Char) :=
  (readUnits cs).map fun (units, rest) ↦ ((charsOf? units).map String.ofList, rest)

def keyword (word : List Char) (value : Datum) (cs : List Char) : Option (Datum × List Char) :=
  if word.isPrefixOf cs then some (value, cs.drop word.length) else none

def maxDepth : Nat := 127

def tableOf (entries : List (Option String × Datum)) : Datum :=
  match entries.mapM fun e ↦ e.1.map (·, e.2) with
  | some es => .table es
  | none => .unreadable

mutual

/-- A value. The first argument bounds the number of steps, which the length of the text does; the
second is how many more levels of nesting can be read. -/
def readValue : Nat → Nat → List Char → Option (Datum × List Char)
  | 0, _, _ => none
  | fuel + 1, room, cs =>
    match skipSpace cs with
    | [] => none
    | '"' :: rest =>
      (readText rest).map fun (s, rest) ↦ ((s.map .text).getD .unreadable, rest)
    | '[' :: rest =>
      let found := match skipSpace rest with
        | ']' :: rest => some ([], rest)
        | rest => readItems fuel (room - 1) rest
      found.map fun (items, rest) ↦ (if room = 0 then .unreadable else .list items, rest)
    | '\x7b' :: rest =>
      let found := match skipSpace rest with
        | '\x7d' :: rest => some ([], rest)
        | rest => readEntries fuel (room - 1) rest
      found.map fun (entries, rest) ↦ (if room = 0 then .unreadable else tableOf entries, rest)
    | 'n' :: rest => keyword ['u', 'l', 'l'] .null rest
    | 't' :: rest => keyword ['r', 'u', 'e'] (.bool true) rest
    | 'f' :: rest => keyword ['a', 'l', 's', 'e'] (.bool false) rest
    | c :: rest => (readNumeral (c :: rest)).map fun (x, rest) ↦ (x.datum, rest)

def readItems : Nat → Nat → List Char → Option (List Datum × List Char)
  | 0, _, _ => none
  | fuel + 1, room, cs =>
    match readValue fuel room cs with
    | none => none
    | some (d, rest) =>
      match skipSpace rest with
      | ']' :: rest => some ([d], rest)
      | ',' :: rest => (readItems fuel room rest).map fun (ds, rest) ↦ (d :: ds, rest)
      | _ => none

def readEntries : Nat → Nat → List Char → Option (List (Option String × Datum) × List Char)
  | 0, _, _ => none
  | fuel + 1, room, cs =>
    match skipSpace cs with
    | '"' :: rest =>
      match readText rest with
      | none => none
      | some (key, rest) =>
        match skipSpace rest with
        | ':' :: rest =>
          match readValue fuel room rest with
          | none => none
          | some (d, rest) =>
            match skipSpace rest with
            | '\x7d' :: rest => some ([(key, d)], rest)
            | ',' :: rest =>
              (readEntries fuel room rest).map fun (es, rest) ↦ ((key, d) :: es, rest)
            | _ => none
        | _ => none
    | _ => none

end

def read (s : String) : Option Datum :=
  let cs := s.toList
  match readValue (2 * cs.length + 2) maxDepth cs with
  | some (d, rest) => if (skipSpace rest).isEmpty then some d else none
  | none => none

end Listing.Json
