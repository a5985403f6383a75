import Listing.Text.Utf8

namespace Listing.Text

def upperHex (n : Nat) : Char := (Nat.digitChar n).toUpper

def percentByte (b : UInt8) : List Char :=
  ['%', upperHex (b.toNat / 16), upperHex (b.toNat % 16)]

def percentEncode (kept : Char → Bool) (cs : List Char) : List Char :=
  cs.flatMap fun c ↦ if kept c then [c] else (utf8 (String.singleton c)).flatMap percentByte

def hexOfByte? (b : UInt8) : Option Nat :=
  let n := b.toNat
  if 0x30 ≤ n ∧ n ≤ 0x39 then some (n - 0x30)
  else if 0x41 ≤ n ∧ n ≤ 0x46 then some (n - 0x41 + 10)
  else if 0x61 ≤ n ∧ n ≤ 0x66 then some (n - 0x61 + 10)
  else none

/-- A percent sign without two digits after it stands for itself. -/
def percentDecode : List UInt8 → List UInt8
  | [] => []
  | b :: bytes =>
    match bytes with
    | high :: low :: rest =>
      match b == 0x25, hexOfByte? high, hexOfByte? low with
      | true, some h, some l => UInt8.ofNat (16 * h + l) :: percentDecode rest
      | _, _, _ => b :: percentDecode (high :: low :: rest)
    | short => b :: percentDecode short

def formText (cs : List Char) : String :=
  let spaced := cs.map fun c ↦ if c = '+' then ' ' else c
  ofUtf8Lossy (percentDecode (utf8 (String.ofList spaced)))

def formPair (cs : List Char) : String × String :=
  (formText (cs.takeWhile (· ≠ '=')), formText ((cs.dropWhile (· ≠ '=')).drop 1))

def formPairs (cs : List Char) : List (String × String) :=
  ((cs.splitOn '&').filter (· ≠ [])).map formPair

end Listing.Text
