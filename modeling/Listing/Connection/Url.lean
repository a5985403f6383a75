import Listing.Connection.Host

namespace Listing.Connection

open Number Text

structure Location where
  user : String
  password : Option String
  host : String
  port : Option Nat
  path : String
  query : String
  deriving DecidableEq, Repr

structure Url where
  scheme : String
  location : Option Location
  deriving DecidableEq, Repr

inductive SchemeKind
  | file
  | web
  | other
  deriving DecidableEq, Repr

def SchemeKind.of (scheme : String) : SchemeKind :=
  if scheme = "file" then file
  else if ["http", "https", "ws", "wss", "ftp"].contains scheme then web
  else other

def isLetter (c : Char) : Bool := ('a' ≤ c && c ≤ 'z') || ('A' ≤ c && c ≤ 'Z')

def isSchemeChar (c : Char) : Bool := isLetter c || isDigit c || c == '+' || c == '-' || c == '.'

/-- Without control characters and spaces at the ends, and without tabs and line breaks anywhere. -/
def cleaned (s : String) : List Char :=
  let isEdge (c : Char) : Bool := c.toNat ≤ 0x20
  let trimmed := ((s.toList.dropWhile isEdge).reverse.dropWhile isEdge).reverse
  trimmed.filter fun c ↦ !(c == '\t' || c == '\n' || c == '\r')

def readScheme (cs : List Char) : Option (String × List Char) :=
  match cs.head?, cs.dropWhile isSchemeChar with
  | some c, ':' :: rest =>
    if isLetter c then some (String.ofList ((cs.takeWhile isSchemeChar).map lowerAscii), rest)
    else none
  | _, _ => none

/-- What ends the authority. In a web scheme a backslash does, too. -/
def isDelimiter (kind : SchemeKind) (c : Char) : Bool :=
  c == '/' || c == '?' || c == '#' || (kind ≠ .other && c == '\\')

def isPathChar (c : Char) : Bool :=
  !isControl c && !(" \"<>\x60#?\x7b\x7d".toList.contains c)

def isUserChar (c : Char) : Bool := isPathChar c && !("/:;=@[\\]^|".toList.contains c)

def splitCredentials (cs : List Char) : Option (List Char) × List Char :=
  let after := (cs.reverse.takeWhile (· ≠ '@')).reverse
  if after.length = cs.length then (none, cs)
  else (some (cs.take (cs.length - after.length - 1)), after)

/-- The user, and the password after the first colon. An empty password is none. -/
def readCredentials (cs : List Char) : String × Option String :=
  let encode (cs : List Char) : String := String.ofList (percentEncode isUserChar cs)
  let password := (cs.dropWhile (· ≠ ':')).drop 1
  (encode (cs.takeWhile (· ≠ ':')), if password = [] then none else some (encode password))

def splitHost (inBrackets : Bool) : List Char → List Char × List Char
  | [] => ([], [])
  | c :: cs =>
    if c = ':' ∧ !inBrackets then ([], c :: cs)
    else
      let inBrackets := if c = '[' then true else if c = ']' then false else inBrackets
      let (host, rest) := splitHost inBrackets cs
      (c :: host, rest)

def readPort (cs : List Char) : Except UrlProblem (Option Nat × List Char) :=
  let digits := cs.takeWhile isDigit
  let rest := cs.dropWhile isDigit
  if 0xffff < digitsValue digits then .error .port
  else if rest.head?.any (· ≠ '\\') then .error .port
  else .ok (if digits = [] then none else some (digitsValue digits), rest)

def isDot (s : List Char) : Bool := [".", "%2e"].contains (String.ofList (s.map lowerAscii))

def isDoubleDot (s : List Char) : Bool :=
  ["..", ".%2e", "%2e.", "%2e%2e"].contains (String.ofList (s.map lowerAscii))

/-- A letter with a colon or a bar, which no dots lead away from. -/
def isDriveLetter : List Char → Bool
  | [c, d] => isLetter c && (d == ':' || d == '|')
  | _ => false

def leave : List (List Char) → List (List Char)
  | [] => []
  | s :: left => if isDriveLetter s then s :: left else left

/-- The segments with the dots among them carried out. The first list holds those already passed,
the last one first. -/
def resolveDots (passed : List (List Char)) : List (List Char) → List (List Char)
  | [] => passed.reverse
  | [s] =>
    if isDoubleDot s then (leave passed).reverse ++ [[]]
    else if isDot s then passed.reverse ++ [[]]
    else passed.reverse ++ [s]
  | s :: rest =>
    if isDoubleDot s then resolveDots (leave passed) rest
    else if isDot s then resolveDots passed rest
    else resolveDots (s :: passed) rest

def readPath (cs : List Char) : String :=
  let cs := cs.takeWhile fun c ↦ c ≠ '?' ∧ c ≠ '#'
  let segments := ((if cs.head? = some '/' then cs.drop 1 else cs).splitOn '/').map
    (percentEncode isPathChar)
  if cs = [] then ""
  else String.ofList ((resolveDots [] segments).flatMap ('/' :: ·))

def readQuery (cs : List Char) : String :=
  String.ofList (((cs.takeWhile (· ≠ '#')).dropWhile (· ≠ '?')).drop 1)

def readHost (kind : SchemeKind) (cs : List Char) : Except UrlProblem String :=
  match kind with
  | .other => opaqueHost cs
  | _ => if cs = [] then .error .emptyHost else webHost cs

/-- What stands after the two slashes. Without a host there are no credentials and no port. -/
def readLocation (kind : SchemeKind) (cs : List Char) : Except UrlProblem (Option Location) := do
  let authority := cs.takeWhile fun c ↦ !isDelimiter kind c
  let rest := cs.dropWhile fun c ↦ !isDelimiter kind c
  let (info, place) := splitCredentials authority
  let (user, password) := readCredentials (info.getD [])
  if info = some [] ∧ place = [] ∧ rest ≠ [] then .error .emptyHost
  else
    let (hostText, afterHost) := splitHost false place
    let host ← readHost kind hostText
    if hostText = [] then
      if afterHost ≠ [] ∨ user ≠ "" ∨ password.isSome then .error .emptyHost else .ok none
    else
      let (port, left) ← readPort (afterHost.drop 1)
      .ok (some ⟨user, password, host, port, readPath (left ++ rest), readQuery (left ++ rest)⟩)

/-- A file has a host only after two slashes, and a drive letter there is none. -/
def checkFileHost (cs : List Char) : Except UrlProblem Unit :=
  match cs with
  | c :: d :: rest =>
    let host := rest.takeWhile fun c ↦ !isDelimiter .file c
    if (c = '/' ∨ c = '\\') ∧ (d = '/' ∨ d = '\\') ∧ host ≠ [] ∧ !isDriveLetter host then
      (webHost host).map fun _ ↦ ()
    else .ok ()
  | _ => .ok ()

def Url.read (s : String) : Except UrlProblem Url :=
  match readScheme (cleaned s) with
  | none => .error .noScheme
  | some (scheme, rest) =>
    match SchemeKind.of scheme with
    | .file => (checkFileHost rest).map fun _ ↦ ⟨scheme, none⟩
    | .web =>
      let rest := rest.dropWhile fun c ↦ c = '/' ∨ c = '\\'
      (readLocation .web rest).map (⟨scheme, ·⟩)
    | .other =>
      match rest with
      | '/' :: '/' :: rest => (readLocation .other rest).map (⟨scheme, ·⟩)
      | _ => .ok ⟨scheme, none⟩

end Listing.Connection
