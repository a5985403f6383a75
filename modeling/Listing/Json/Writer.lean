import Listing.Datum
import Listing.Number.Shortest

namespace Listing.Json

open Number

def hexDigit (n : Nat) : Char := Nat.digitChar n

def escape (c : Char) : List Char :=
  if c = '"' then ['\\', '"']
  else if c = '\\' then ['\\', '\\']
  else if c = '\x08' then ['\\', 'b']
  else if c = '\t' then ['\\', 't']
  else if c = '\n' then ['\\', 'n']
  else if c = '\x0c' then ['\\', 'f']
  else if c = '\r' then ['\\', 'r']
  else if c.toNat < 0x20 then
    ['\\', 'u', '0', '0', hexDigit (c.toNat / 16), hexDigit (c.toNat % 16)]
  else [c]

def writeText (s : String) : List Char := '"' :: (s.toList.flatMap escape ++ ['"'])

mutual

def write : Datum → List Char
  | .null | .unreadable => ['n', 'u', 'l', 'l']
  | .bool true => ['t', 'r', 'u', 'e']
  | .bool false => ['f', 'a', 'l', 's', 'e']
  | .int i => (toString i).toList
  | .float x => x.jsonText?.getD ['n', 'u', 'l', 'l']
  | .text s => writeText s
  | .list [] => ['[', ']']
  | .list (d :: ds) => '[' :: (write d ++ writeItems ds)
  | .table [] => ['\x7b', '\x7d']
  | .table ((k, d) :: es) => '\x7b' :: (writeText k ++ ':' :: (write d ++ writeEntries es))

def writeItems : List Datum → List Char
  | [] => [']']
  | d :: ds => ',' :: (write d ++ writeItems ds)

def writeEntries : List (String × Datum) → List Char
  | [] => ['\x7d']
  | (k, d) :: es => ',' :: (writeText k ++ ':' :: (write d ++ writeEntries es))

end

def render (d : Datum) : String := String.ofList (write d)

end Listing.Json
