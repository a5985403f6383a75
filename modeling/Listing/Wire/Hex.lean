import Listing.Json.Reader
import Listing.Wire.Bytes

namespace Listing.Wire

def hexDigit (n : Nat) : Char := Nat.digitChar n

def hexOfBytes : Bytes → List Char
  | [] => []
  | b :: bytes => hexDigit (b.toNat / 16) :: hexDigit (b.toNat % 16) :: hexOfBytes bytes

def bytesOfHex? : List Char → Option Bytes
  | [] => some []
  | a :: b :: cs => do
    let high ← Json.hexValue? a
    let low ← Json.hexValue? b
    let rest ← bytesOfHex? cs
    some (UInt8.ofNat (16 * high + low) :: rest)
  | [_] => none

end Listing.Wire
