import Listing.Number.Power

namespace Listing.Text

def utf8 (s : String) : List UInt8 := s.toUTF8.toList

def ofUtf8? (bytes : List UInt8) : Option String := String.fromUTF8? ⟨bytes.toArray⟩

def replacement : Char := '\ufffd'

/-- How many bytes have to follow a first byte, and the range of the next one; nothing for a byte
that is never the first of several. -/
def follow? (lead : Nat) : Option (Nat × Nat × Nat) :=
  if 0xC2 ≤ lead ∧ lead ≤ 0xDF then some (1, 0x80, 0xBF)
  else if lead = 0xE0 then some (2, 0xA0, 0xBF)
  else if lead = 0xED then some (2, 0x80, 0x9F)
  else if 0xE1 ≤ lead ∧ lead ≤ 0xEF then some (2, 0x80, 0xBF)
  else if lead = 0xF0 then some (3, 0x90, 0xBF)
  else if 0xF1 ≤ lead ∧ lead ≤ 0xF3 then some (3, 0x80, 0xBF)
  else if lead = 0xF4 then some (3, 0x80, 0x8F)
  else none

def following : Nat → Nat → Nat → List UInt8 → List UInt8
  | count + 1, low, high, b :: bytes =>
    if low ≤ b.toNat ∧ b.toNat ≤ high then b :: following count 0x80 0xBF bytes else []
  | _, _, _, _ => []

/-- The first character and how many bytes after the first belong to it. A beginning that no
character goes on from is replaced as a whole. -/
def firstChar (lead : UInt8) (bytes : List UInt8) : Char × Nat :=
  if lead.toNat < 0x80 then (Char.ofNat lead.toNat, 0)
  else
    match follow? lead.toNat with
    | none => (replacement, 0)
    | some (count, low, high) =>
      let rest := following count low high bytes
      let start := lead.toNat % 2 ^ (6 - count)
      if rest.length = count then
        (Char.ofNat (rest.foldl (fun n b ↦ 64 * n + b.toNat % 64) start), count)
      else (replacement, rest.length)

def lossyChars : List UInt8 → List Char
  | [] => []
  | b :: bytes =>
    let (c, used) := firstChar b bytes
    c :: lossyChars (bytes.drop used)
termination_by bytes => bytes.length
decreasing_by rw [List.length_drop, List.length_cons]; omega

def ofUtf8Lossy (bytes : List UInt8) : String := String.ofList (lossyChars bytes)

end Listing.Text
