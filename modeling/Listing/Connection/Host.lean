import Listing.Json.Reader
import Listing.Text.Percent

namespace Listing.Connection

open Number Text

inductive UrlProblem
  | noScheme
  | emptyHost
  | domainName
  | domainCharacter
  | port
  | ipv4
  | ipv6
  deriving DecidableEq, Repr

def UrlProblem.message : UrlProblem → String
  | noScheme => "relative URL without a base"
  | emptyHost => "empty host"
  | domainName => "invalid international domain name"
  | domainCharacter => "invalid domain character"
  | port => "invalid port number"
  | ipv4 => "invalid IPv4 address"
  | ipv6 => "invalid IPv6 address"

def byteOf? (digits : List Char) : Option Nat :=
  if digits = [] ∨ !digits.all isDigit then none
  else if 1 < digits.length ∧ digits.head? = some '0' then none
  else if digitsValue digits ≤ 255 then some (digitsValue digits)
  else none

def dottedPieces? (cs : List Char) : Option (List Nat) :=
  match (cs.splitOn '.').mapM byteOf? with
  | some [a, b, c, d] => some [256 * a + b, 256 * c + d]
  | _ => none

def hexDigits (cs : List Char) : List Char :=
  (cs.take 4).takeWhile fun c ↦ (Json.hexValue? c).isSome

/-- The pieces of an address, eight at most, and after how many of them there is a gap. The gap
counts as a piece. -/
def readPieces (pieces : List Nat) (gap : Option Nat) (cs : List Char) :
    Option (List Nat × Option Nat) :=
  match cs with
  | [] => some (pieces, gap)
  | ':' :: rest =>
    if pieces.length = 8 ∨ gap.isSome then none
    else readPieces (pieces ++ [0]) (some (pieces.length + 1)) rest
  | c :: cs =>
    let digits := hexDigits (c :: cs)
    let next := pieces ++ [(Json.hexValueOf? digits).getD 0]
    if pieces.length = 8 ∨ digits = [] then none
    else
      match _cut : cs.drop (digits.length - 1) with
      | [] => some (next, gap)
      | [':'] => none
      | ':' :: d :: rest => readPieces next gap (d :: rest)
      | '.' :: _ =>
        if 6 < pieces.length then none
        else (dottedPieces? (c :: cs)).map fun dotted ↦ (pieces ++ dotted, gap)
      | _ => none
termination_by cs.length
decreasing_by
  · simp
  · have := congrArg List.length _cut
    simp at this ⊢
    omega

def ipv6Of? (cs : List Char) : Option (List Nat) :=
  let read := match cs with
    | [] | [_] => none
    | ':' :: ':' :: rest => readPieces [0] (some 1) rest
    | ':' :: _ => none
    | cs => readPieces [] none cs
  match read with
  | some (pieces, some gap) =>
    some (pieces.take gap ++ List.replicate (8 - pieces.length) 0 ++ pieces.drop gap)
  | some (pieces, none) => if pieces.length = 8 then some pieces else none
  | none => none

def pieceText (n : Nat) : List Char := Nat.toDigits 16 n

def piecesText (pieces : List Nat) : List Char := [':'].intercalate (pieces.map pieceText)

def longestZeros (pieces : List Nat) : Nat × Nat :=
  (List.range pieces.length).foldl (fun best start ↦
    let length := ((pieces.drop start).takeWhile (· == 0)).length
    if best.2 < length then (start, length) else best) (0, 0)

/-- In brackets, with the longest run of at least two zeros left out. -/
def ipv6Text (pieces : List Nat) : String :=
  let (start, length) := longestZeros pieces
  let inner := if length < 2 then piecesText pieces
    else piecesText (pieces.take start) ++ ':' :: ':' :: piecesText (pieces.drop (start + length))
  String.ofList ('[' :: (inner ++ [']']))

def bracketed? (cs : List Char) : Except UrlProblem String :=
  if cs.getLast? = some ']' then
    match ipv6Of? (cs.drop 1).dropLast with
    | some pieces => .ok (ipv6Text pieces)
    | none => .error .ipv6
  else .error .ipv6

def forbidden : List Char :=
  ['\x00', '\t', '\n', '\r', ' ', '#', '/', ':', '<', '>', '?', '@', '[', '\\', ']', '^', '|']

def isControl (c : Char) : Bool := c.toNat < 0x20 || 0x7F ≤ c.toNat

def opaqueHost (cs : List Char) : Except UrlProblem String :=
  if cs.head? = some '[' then bracketed? cs
  else if cs.any forbidden.contains then .error .domainCharacter
  else .ok (String.ofList (percentEncode (fun c ↦ !isControl c) cs))

/-- A number of an address in decimal, octal or hexadecimal digits; nothing inside for one of more
than 32 bits. -/
def ipv4Number? (cs : List Char) : Option (Option Nat) :=
  let read (base : Nat) (digits : List Char) : Option (Option Nat) :=
    (digits.mapM fun c ↦ (Json.hexValue? c).filter (· < base)).map fun values ↦
      let n := values.foldl (fun n d ↦ base * n + d) 0
      if n ≤ 0xffffffff then some n else none
  match cs with
  | [] => none
  | '0' :: 'x' :: digits | '0' :: 'X' :: digits => read 16 digits
  | '0' :: d :: digits => read 8 (d :: digits)
  | digits => read 10 digits

def domainParts (cs : List Char) : List (List Char) :=
  let parts := cs.splitOn '.'
  if parts.getLast? = some [] then parts.dropLast else parts

/-- A domain whose last part is a number has to be an address of four bytes. -/
def endsInNumber (cs : List Char) : Bool :=
  match (domainParts cs).getLast? with
  | none | some [] => false
  | some last => last.all isDigit || (ipv4Number? last).isSome

/-- At most four numbers; all but the last are bytes, and the last fills up the address. -/
def isIpv4 (cs : List Char) : Bool :=
  let parts := domainParts cs
  match parts.mapM fun part ↦ (ipv4Number? part).bind id with
  | some numbers =>
    parts.length ≤ 4 && numbers.dropLast.all (· ≤ 255) &&
      numbers.getLastD 0 < 256 ^ (5 - parts.length)
  | none => false

def webHost (cs : List Char) : Except UrlProblem String :=
  if cs.head? = some '[' then bracketed? cs
  else
    match ofUtf8? (percentDecode (utf8 (String.ofList cs))) with
    | none => .error .domainName
    | some s =>
      let name := s.toList.map lowerAscii
      if name.any fun c ↦ c.toNat ≤ 0x20 ∨ c = '\x7f' ∨ c = '%' ∨ forbidden.contains c then
        .error .domainName
      else if name = [] then .error .emptyHost
      else if endsInNumber name && !isIpv4 name then .error .ipv4
      else .ok (String.ofList name)

end Listing.Connection
