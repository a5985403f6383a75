import Listing.Wire.Hex

namespace Listing.Wire.Uuid

def groupLengths : List Nat := [8, 4, 4, 4, 12]

def hyphenate : List Nat → List Char → List Char
  | n :: m :: lengths, cs => cs.take n ++ '-' :: hyphenate (m :: lengths) (cs.drop n)
  | _, cs => cs

def unhyphenate? : List Nat → List Char → Option (List Char)
  | n :: m :: lengths, cs =>
    match cs.drop n with
    | '-' :: rest => (unhyphenate? (m :: lengths) rest).map (cs.take n ++ ·)
    | _ => none
  | _, cs => some cs

def text (bytes : Bytes) : String := String.ofList (hyphenate groupLengths (hexOfBytes bytes))

def readHyphenated (cs : List Char) : Option Bytes :=
  if cs.length = 36 then (unhyphenate? groupLengths cs).bind bytesOfHex? else none

/-- Digits alone, in groups, or in groups with braces around them or with `urn:uuid:` before
them. -/
def ofText? (s : String) : Option Bytes :=
  match s.toList with
  | '{' :: cs => if cs.getLast? = some '}' then readHyphenated cs.dropLast else none
  | 'u' :: 'r' :: 'n' :: ':' :: 'u' :: 'u' :: 'i' :: 'd' :: ':' :: cs => readHyphenated cs
  | cs => if cs.length = 32 then bytesOfHex? cs else readHyphenated cs

end Listing.Wire.Uuid
