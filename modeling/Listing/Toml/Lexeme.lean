import Listing.Number.Reading
import Listing.Datum
import Listing.Json.Reader

namespace Listing.Toml

open Number

def isBlank (c : Char) : Bool := c == ' ' || c == '\t'

def skipBlank (cs : List Char) : List Char := cs.dropWhile isBlank

def isAllowed (c : Char) : Bool := c == '\t' || (0x20 ≤ c.toNat && c.toNat ≠ 0x7F)

def readNewline : List Char → Option (List Char)
  | '\n' :: cs => some cs
  | '\r' :: '\n' :: cs => some cs
  | _ => none

def skipComment : List Char → List Char
  | '#' :: cs => cs.dropWhile isAllowed
  | cs => cs

def readLineEnd (cs : List Char) : Option (List Char) :=
  match skipComment (skipBlank cs) with
  | [] => some []
  | cs => readNewline cs

def skipTrivia (inComment : Bool) : List Char → Option (List Char)
  | [] => if inComment then none else some []
  | '\n' :: cs => skipTrivia false cs
  | '\r' :: '\n' :: cs => skipTrivia false cs
  | c :: cs =>
    if inComment then if isAllowed c then skipTrivia true cs else none
    else if isBlank c then skipTrivia false cs
    else if c = '#' then skipTrivia true cs
    else some (c :: cs)

def scalarOf? (cs : List Char) : Option Char :=
  (Json.hexValueOf? cs).bind fun n ↦ if n.isValidChar then some (Char.ofNat n) else none

def escapeOf? : Char → Option Char
  | 'b' => some '\x08'
  | 't' => some '\t'
  | 'n' => some '\n'
  | 'f' => some '\x0c'
  | 'r' => some '\r'
  | '"' => some '"'
  | '\\' => some '\\'
  | _ => none

abbrev TextAndRest := Option (List Char × List Char)

def TextAndRest.push (c : Option Char) (x : TextAndRest) : TextAndRest :=
  match c, x with
  | some c, some (text, rest) => some (c :: text, rest)
  | _, _ => none

def readBasic : List Char → TextAndRest
  | [] => none
  | '"' :: cs => some ([], cs)
  | '\\' :: 'u' :: a :: b :: c :: d :: cs =>
    TextAndRest.push (scalarOf? [a, b, c, d]) (readBasic cs)
  | '\\' :: 'U' :: a :: b :: c :: d :: e :: f :: g :: h :: cs =>
    TextAndRest.push (scalarOf? [a, b, c, d, e, f, g, h]) (readBasic cs)
  | '\\' :: c :: cs => TextAndRest.push (escapeOf? c) (readBasic cs)
  | c :: cs => if isAllowed c ∧ c ≠ '\\' then TextAndRest.push (some c) (readBasic cs) else none

def readLiteral : List Char → TextAndRest
  | [] => none
  | '\'' :: cs => some ([], cs)
  | c :: cs => if isAllowed c then TextAndRest.push (some c) (readLiteral cs) else none

def startsLineEnd (cs : List Char) : Bool := (readNewline (skipBlank cs)).isSome

/-- What follows three quotation marks. A backslash at the end of a line takes away all blanks and
newlines up to the next character, which `joining` stands for. -/
def readLongBasic (joining : Bool) : List Char → TextAndRest
  | [] => none
  | '"' :: '"' :: '"' :: '"' :: '"' :: cs => some (['"', '"'], cs)
  | '"' :: '"' :: '"' :: '"' :: cs => some (['"'], cs)
  | '"' :: '"' :: '"' :: cs => some ([], cs)
  | '\r' :: '\n' :: cs =>
    if joining then readLongBasic true cs
    else TextAndRest.push (some '\n') (readLongBasic false cs)
  | '\\' :: 'u' :: a :: b :: c :: d :: cs =>
    TextAndRest.push (scalarOf? [a, b, c, d]) (readLongBasic false cs)
  | '\\' :: 'U' :: a :: b :: c :: d :: e :: f :: g :: h :: cs =>
    TextAndRest.push (scalarOf? [a, b, c, d, e, f, g, h]) (readLongBasic false cs)
  | '\\' :: c :: cs =>
    if startsLineEnd (c :: cs) then readLongBasic true (c :: cs)
    else TextAndRest.push (escapeOf? c) (readLongBasic false cs)
  | c :: cs =>
    if joining ∧ (isBlank c ∨ c = '\n') then readLongBasic true cs
    else if c = '\n' ∨ (isAllowed c ∧ c ≠ '\\') then
      TextAndRest.push (some c) (readLongBasic false cs)
    else none

def readLongLiteral : List Char → TextAndRest
  | [] => none
  | '\'' :: '\'' :: '\'' :: '\'' :: '\'' :: cs => some (['\'', '\''], cs)
  | '\'' :: '\'' :: '\'' :: '\'' :: cs => some (['\''], cs)
  | '\'' :: '\'' :: '\'' :: cs => some ([], cs)
  | '\r' :: '\n' :: cs => TextAndRest.push (some '\n') (readLongLiteral cs)
  | c :: cs =>
    if c = '\n' ∨ isAllowed c then TextAndRest.push (some c) (readLongLiteral cs) else none

def skipFirstNewline (cs : List Char) : List Char := (readNewline cs).getD cs

def readString : List Char → TextAndRest
  | '"' :: '"' :: '"' :: cs => readLongBasic false (skipFirstNewline cs)
  | '"' :: cs => readBasic cs
  | '\'' :: '\'' :: '\'' :: cs => readLongLiteral (skipFirstNewline cs)
  | '\'' :: cs => readLiteral cs
  | _ => none

def isKeyChar (c : Char) : Bool := c.isAlphanum || c == '_' || c == '-'

def readSimpleKey : List Char → TextAndRest
  | '"' :: cs => readBasic cs
  | '\'' :: cs => readLiteral cs
  | cs =>
    match cs.takeWhile isKeyChar with
    | [] => none
    | key => some (key, cs.dropWhile isKeyChar)

def readKey : Nat → List Char → Option (List String × List Char)
  | 0, _ => none
  | fuel + 1, cs =>
    match readSimpleKey (skipBlank cs) with
    | none => none
    | some (key, rest) =>
      match skipBlank rest with
      | '.' :: rest => (readKey fuel rest).map fun (keys, rest) ↦ (String.ofList key :: keys, rest)
      | rest => some ([String.ofList key], rest)

/-- A dotted key has fewer parts than this, and values are nested less deep. -/
def limit : Nat := 80

def readDigits (isDigit : Char → Bool) : List Char → List Char × List Char
  | [] => ([], [])
  | c :: '_' :: d :: cs =>
    if isDigit c && isDigit d then
      let (ds, rest) := readDigits isDigit (d :: cs)
      (c :: ds, rest)
    else if isDigit c then ([c], '_' :: d :: cs)
    else ([], c :: '_' :: d :: cs)
  | c :: cs =>
    if isDigit c then
      let (ds, rest) := readDigits isDigit cs
      (c :: ds, rest)
    else ([], c :: cs)

def readWhole (cs : List Char) : List Char × List Char :=
  match cs with
  | '0' :: rest => (['0'], rest)
  | cs => readDigits isDigit cs

def readSign : List Char → Bool × List Char
  | '-' :: cs => (true, cs)
  | '+' :: cs => (false, cs)
  | cs => (false, cs)

def radixValue (radix : Nat) (cs : List Char) : Nat :=
  cs.foldl (fun n c ↦ radix * n + (Json.hexValue? c).getD 0) 0

def readRadix (radix : Nat) (cs : List Char) : Option (Datum × List Char) :=
  let isRadixDigit (c : Char) : Bool := (Json.hexValue? c).any (· < radix)
  match readDigits isRadixDigit cs with
  | ([], _) => none
  | (digits, rest) =>
    let n := radixValue radix digits
    if n ≤ maxLong then some (.int n, rest) else none

def readFraction : List Char → Option (List Char × List Char)
  | '.' :: cs =>
    match readDigits isDigit cs with
    | ([], _) => none
    | found => some found
  | cs => some ([], cs)

def readExponent : List Char → Option (Option Int × List Char)
  | mark :: cs =>
    if mark = 'e' ∨ mark = 'E' then
      let (negative, cs) := readSign cs
      match readDigits isDigit cs with
      | ([], _) => none
      | (digits, rest) =>
        let n : Int := digitsValue digits
        some (some (if negative then -n else n), rest)
    else some (none, mark :: cs)
  | [] => some (none, [])

def ofBits (bits : Nat) : Datum := .float (Double.ofBits bits)

/-- A number without a radix: an integer of 64 bits, or a floating-point number, which is not too
large to be one. -/
def readDecimal (cs : List Char) : Option (Datum × List Char) :=
  let (negative, cs) := readSign cs
  let signed (bits : Nat) : Datum := ofBits (Format.binary64.signed negative bits)
  match cs with
  | 'i' :: 'n' :: 'f' :: rest => some (signed Format.binary64.infinityBits, rest)
  | 'n' :: 'a' :: 'n' :: rest => some (signed Format.binary64.nanBits, rest)
  | cs =>
    match readWhole cs with
    | ([], _) => none
    | (whole, rest) => do
      let (fraction, rest) ← readFraction rest
      let (exponent, rest) ← readExponent rest
      if fraction.isEmpty && exponent.isNone then
        let n : Int := digitsValue whole
        let i := if negative then -n else n
        if minLong ≤ i ∧ i ≤ maxLong then some (.int i, rest) else none
      else
        let bits := Format.binary64.ofDecimal (digitsValue (whole ++ fraction))
          (exponent.getD 0 - fraction.length)
        if bits = Format.binary64.infinityBits && !negative then none
        else some (signed bits, rest)

def readNumber (cs : List Char) : Option (Datum × List Char) :=
  match cs with
  | '0' :: 'x' :: rest => readRadix 16 rest
  | '0' :: 'o' :: rest => readRadix 8 rest
  | '0' :: 'b' :: rest => readRadix 2 rest
  | cs => readDecimal cs

def readPart (digits least greatest : Nat) (cs : List Char) : Option (Nat × List Char) :=
  let front := cs.take digits
  let n := digitsValue front
  if front.length = digits ∧ front.all isDigit ∧ least ≤ n ∧ n ≤ greatest then
    some (n, cs.drop digits)
  else none

def expect (c : Char) : List Char → Option (List Char)
  | d :: cs => if d = c then some cs else none
  | [] => none

def monthLength (year month : Nat) : Nat :=
  if month = 2 then if year % 4 = 0 ∧ (year % 100 ≠ 0 ∨ year % 400 = 0) then 29 else 28
  else if month = 4 ∨ month = 6 ∨ month = 9 ∨ month = 11 then 30
  else 31

def readDate (cs : List Char) : Option (List Char) := do
  let (year, cs) ← readPart 4 0 9999 cs
  let cs ← expect '-' cs
  let (month, cs) ← readPart 2 1 12 cs
  let cs ← expect '-' cs
  let (_, cs) ← readPart 2 1 (monthLength year month) cs
  some cs

def readTime (cs : List Char) : Option (List Char) := do
  let (_, cs) ← readPart 2 0 23 cs
  let cs ← expect ':' cs
  let (_, cs) ← readPart 2 0 59 cs
  let cs ← expect ':' cs
  let (_, cs) ← readPart 2 0 60 cs
  match cs with
  | '.' :: rest =>
    match rest.takeWhile isDigit with
    | [] => none
    | _ => some (rest.dropWhile isDigit)
  | cs => some cs

def readOffset (cs : List Char) : Option (List Char) :=
  let shifted (cs : List Char) : Option (List Char) := do
    let (_, cs) ← readPart 2 0 23 cs
    let cs ← expect ':' cs
    let (_, cs) ← readPart 2 0 59 cs
    some cs
  match cs with
  | 'Z' :: cs | 'z' :: cs => some cs
  | '+' :: cs | '-' :: cs => shifted cs
  | cs => some cs

def startsTime : List Char → Bool
  | s :: a :: b :: ':' :: _ => (s == 'T' || s == 't' || s == ' ') && isDigit a && isDigit b
  | _ => false

def readDateTime (cs : List Char) : Option (List Char) :=
  match cs with
  | _ :: _ :: ':' :: _ => readTime cs
  | _ => do
    let rest ← readDate cs
    if startsTime rest then
      let rest ← readTime (rest.drop 1)
      readOffset rest
    else some rest

/-- Four digits and a hyphen begin a date, two digits and a colon a time. -/
def startsDateTime : List Char → Bool
  | a :: b :: ':' :: _ => isDigit a && isDigit b
  | a :: b :: c :: d :: '-' :: _ => [a, b, c, d].all isDigit
  | _ => false

/-- A date has no type of its own here: it reads as a table with its text under a name that nothing
asks for. -/
def dateDatum (text : List Char) : Datum :=
  .table [("$__toml_private_datetime", .text (String.ofList text))]

def readPlain (cs : List Char) : Option (Datum × List Char) :=
  if startsDateTime cs then
    (readDateTime cs).map fun rest ↦ (dateDatum (cs.take (cs.length - rest.length)), rest)
  else readNumber cs

end Listing.Toml
