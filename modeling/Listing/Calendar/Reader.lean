import Listing.Calendar.Basic
import Listing.Number.Reading
import Listing.Text.Blank

namespace Listing.Calendar

open Number Text

def readNumber (least most : Nat) (cs : List Char) : Option (Nat × List Char) :=
  let digits := (cs.take most).takeWhile isDigit
  if digits.length < least then none
  else some (digitsValue digits, cs.drop digits.length)

def readChar (c : Char) : List Char → Option (List Char)
  | [] => none
  | d :: cs => if d = c then some cs else none

def readPart (least greatest : Nat) (cs : List Char) : Option (Nat × List Char) := do
  let (n, rest) ← readNumber 1 2 (trimLeft cs)
  if least ≤ n ∧ n ≤ greatest then some (n, rest) else none

/-- Four digits at most, or any number of them after a sign. -/
def readYear (cs : List Char) : Option (Int × List Char) :=
  match trimLeft cs with
  | '-' :: rest => (readNumber 1 rest.length rest).map fun (n, rest) ↦ (-(n : Int), rest)
  | '+' :: rest => (readNumber 1 rest.length rest).map fun (n, rest) ↦ ((n : Int), rest)
  | rest => (readNumber 1 4 rest).map fun (n, rest) ↦ ((n : Int), rest)

def readNanos (cs : List Char) : Option (Nat × List Char) := do
  let (n, rest) ← readNumber 1 9 cs
  let places := cs.length - rest.length
  some (n * 10 ^ (9 - places), rest.dropWhile isDigit)

def readFraction (cs : List Char) : Option (Nat × List Char) :=
  match cs with
  | '.' :: rest => readNanos rest
  | rest => some (0, rest)

def readDate (cs : List Char) : Option (Date × List Char) := do
  let (year, cs) ← readYear cs
  let cs ← readChar '-' cs
  let (month, cs) ← readPart 1 12 cs
  let cs ← readChar '-' cs
  let (day, cs) ← readPart 1 31 cs
  let date ← date? year month day
  some (date, cs)

def readTime (cs : List Char) : Option (Time × List Char) := do
  let (hour, cs) ← readPart 0 23 cs
  let cs ← readChar ':' cs
  let (minute, cs) ← readPart 0 59 cs
  let cs ← readChar ':' cs
  let (second, cs) ← readPart 0 60 cs
  let (nano, cs) ← readFraction cs
  some (.of hour minute second nano, cs)

def dateOf? (s : String) : Option Date :=
  match readDate s.toList with
  | some (date, []) => some date
  | _ => none

/-- A date and a time, with a `T` or with blanks between them. -/
def localOf? (blank : Bool) (s : String) : Option Moment := do
  let (date, cs) ← readDate s.toList
  let cs ← if blank then some (trimLeft cs) else readChar 'T' cs
  match readTime cs with
  | some (time, []) => some ⟨date.toDays, time⟩
  | _ => none

def readOffset (cs : List Char) : Option (Int × List Char) :=
  let after (negative : Bool) (cs : List Char) : Option (Int × List Char) := do
    let (hours, cs) ← readNumber 2 2 cs
    let cs ← readChar ':' cs
    let (minutes, cs) ← readNumber 2 2 cs
    if hours ≤ 23 ∧ minutes ≤ 59 then
      let seconds : Int := (3600 * hours + 60 * minutes : Nat)
      some (if negative then -seconds else seconds, cs)
    else none
  match cs with
  | 'Z' :: rest | 'z' :: rest => some (0, rest)
  | '+' :: rest => after false rest
  | '-' :: rest => after true rest
  | '−' :: rest => after true rest
  | _ => none

def readFixed (digits least greatest : Nat) (cs : List Char) : Option (Nat × List Char) := do
  let (n, rest) ← readNumber digits digits cs
  if least ≤ n ∧ n ≤ greatest then some (n, rest) else none

def readSeparator : List Char → Option (List Char)
  | 'T' :: cs | 't' :: cs | ' ' :: cs => some cs
  | _ => none

/-- A moment with an offset, every part with its full number of digits and no blanks. -/
def offsetOf? (s : String) : Option Moment := do
  let (year, cs) ← readFixed 4 0 9999 s.toList
  let cs ← readChar '-' cs
  let (month, cs) ← readFixed 2 1 12 cs
  let cs ← readChar '-' cs
  let (day, cs) ← readFixed 2 1 31 cs
  let cs ← readSeparator cs
  let (hour, cs) ← readFixed 2 0 23 cs
  let cs ← readChar ':' cs
  let (minute, cs) ← readFixed 2 0 59 cs
  let cs ← readChar ':' cs
  let (second, cs) ← readFixed 2 0 60 cs
  let (nano, cs) ← readFraction cs
  let (offset, cs) ← readOffset cs
  let date ← date? year month day
  if cs = [] then some ((⟨date.toDays, .of hour minute second nano⟩ : Moment).back offset) else none

def momentOf? (s : String) : Option Moment :=
  offsetOf? s <|> localOf? false s <|> localOf? true s <|> (dateOf? s).map .ofDate

def isDateLike (s : String) : Bool :=
  (dateOf? s).isSome || (offsetOf? s).isSome || (localOf? false s).isSome ||
    (localOf? true s).isSome

end Listing.Calendar
