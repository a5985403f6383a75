import Listing.Toml.Lexeme

namespace Listing.Toml

inductive Node
  | value (d : Datum)
  /-- A table is implied by a longer header or key until it is opened itself. One that a dotted key
  made can only be extended by dotted keys. -/
  | table (implied dotted : Bool) (entries : List (String × Node))
  | tables (items : List (List (String × Node)))

structure Table where
  implied : Bool
  dotted : Bool
  entries : Keyed Node

def Table.node (t : Table) : Node := .table t.implied t.dotted t.entries

def Table.opened : Table := ⟨false, false, []⟩

mutual

def Node.datum : Node → Datum
  | .value d => d
  | .table _ _ entries => .table (entryData entries)
  | .tables items => .list (tableData items)

def entryData : List (String × Node) → List (String × Datum)
  | [] => []
  | (k, n) :: rest => (k, n.datum) :: entryData rest

def tableData : List (List (String × Node)) → List Datum
  | [] => []
  | entries :: rest => .table (entryData entries) :: tableData rest

end

/-- Changes the table that a path leads to. Missing tables are implied on the way. -/
def Table.updateAt (byDots : Bool) (change : Table → Option Table) :
    List String → Table → Option Table
  | [], t => change t
  | key :: path, t =>
    let put (n : Node) : Table := { t with entries := t.entries.put key n }
    match t.entries.get? key with
    | none => (updateAt byDots change path ⟨true, byDots, []⟩).map fun u ↦ put u.node
    | some (.value _) => none
    | some (.table implied dotted entries) =>
      if byDots && !implied then none
      else (updateAt byDots change path ⟨implied, dotted, entries⟩).map fun u ↦ put u.node
    | some (.tables items) =>
      match items.getLast? with
      | none => none
      | some last =>
        (updateAt byDots change path ⟨false, false, last⟩).map fun u ↦
          put (.tables (items.dropLast ++ [u.entries]))

def Table.addEntry (t : Table) (path : List String) (key : String) (n : Node) : Option Table :=
  t.updateAt true (fun u ↦
    if u.dotted == path.isEmpty || (u.entries.get? key).isSome then none
    else some { u with entries := u.entries ++ [(key, n)] }) path

def splitKey (keys : List String) : Option (List String × String) :=
  keys.getLast?.map fun last ↦ (keys.dropLast, last)

mutual

/-- A value. The first argument bounds the number of steps, the second is the depth of nesting. -/
def readValue : Nat → Nat → List Char → Option (Datum × List Char)
  | 0, _, _ => none
  | fuel + 1, depth, cs =>
    match cs with
    | '"' :: _ | '\'' :: _ =>
      (readString cs).map fun (text, rest) ↦ (.text (String.ofList text), rest)
    | '[' :: rest =>
      if limit ≤ depth + 1 then none
      else (readItems fuel (depth + 1) rest).map fun (items, rest) ↦ (.list items, rest)
    | '\x7b' :: rest =>
      if limit ≤ depth + 1 then none
      else
        match skipBlank rest with
        | '\x7d' :: rest => some (.table [], rest)
        | rest => (readInline fuel (depth + 1) ⟨true, false, []⟩ rest).map fun (t, rest) ↦
            (t.node.datum, rest)
    | 't' :: 'r' :: 'u' :: 'e' :: rest => some (.bool true, rest)
    | 'f' :: 'a' :: 'l' :: 's' :: 'e' :: rest => some (.bool false, rest)
    | _ => readPlain cs

def readItems : Nat → Nat → List Char → Option (List Datum × List Char)
  | 0, _, _ => none
  | fuel + 1, depth, cs =>
    match skipTrivia false cs with
    | some (']' :: rest) => some ([], rest)
    | some rest =>
      match readValue fuel depth rest with
      | none => none
      | some (d, rest) =>
        match skipTrivia false rest with
        | some (']' :: rest) => some ([d], rest)
        | some (',' :: rest) =>
          (readItems fuel depth rest).map fun (ds, rest) ↦ (d :: ds, rest)
        | _ => none
    | none => none

def readInline : Nat → Nat → Table → List Char → Option (Table × List Char)
  | 0, _, _, _ => none
  | fuel + 1, depth, t, cs =>
    match readKey limit cs with
    | some (keys, '=' :: rest) =>
      match splitKey keys, readValue fuel depth (skipBlank rest) with
      | some (path, key), some (d, rest) =>
        match t.addEntry path key (.value d) with
        | none => none
        | some t =>
          match skipBlank rest with
          | '\x7d' :: rest => some (t, rest)
          | ',' :: rest => readInline fuel depth t rest
          | _ => none
      | _, _ => none
    | _ => none

end

/-- The document so far, and the table that entries go to. -/
structure Progress where
  root : Table
  current : Table
  path : List String
  inTables : Bool

namespace Progress

def start : Progress := ⟨.opened, .opened, [], false⟩

def close (p : Progress) : Option Table :=
  match splitKey p.path with
  | none => some p.current
  | some (path, key) =>
    p.root.updateAt false (fun parent ↦
      match p.inTables, parent.entries.get? key with
      | true, none => some { parent with
          entries := parent.entries.put key (.tables [p.current.entries]) }
      | true, some (.tables items) => some { parent with
          entries := parent.entries.put key (.tables (items ++ [p.current.entries])) }
      | false, none => some { parent with
          entries := parent.entries ++ [(key, p.current.node)] }
      | false, some (.table true _ _) => some { parent with
          entries := parent.entries.put key p.current.node }
      | _, _ => none) path

/-- Opens the table of a header. If it was implied it keeps its entries and leaves its place. -/
def openTable (p : Progress) (keys : List String) : Option Progress := do
  let root ← p.close
  let (path, key) ← splitKey keys
  let root ← root.updateAt false some path
  match found? root path key with
  | none => some ⟨root, .opened, keys, false⟩
  | some (.table true false entries) => do
    let root ← root.updateAt false (fun t ↦
      some { t with entries := t.entries.filter (·.1 ≠ key) }) path
    some ⟨root, ⟨false, false, entries⟩, keys, false⟩
  | some _ => none
where
  found? (t : Table) : List String → String → Option Node
    | [], key => t.entries.get? key
    | k :: path, key =>
      match t.entries.get? k with
      | some (.table implied dotted entries) => found? ⟨implied, dotted, entries⟩ path key
      | some (.tables items) => found? ⟨false, false, items.getLast?.getD []⟩ path key
      | _ => none

def openItem (p : Progress) (keys : List String) : Option Progress := do
  let root ← p.close
  let (path, key) ← splitKey keys
  let root ← root.updateAt false (fun parent ↦
    match parent.entries.get? key with
    | none => some { parent with entries := parent.entries ++ [(key, .tables [])] }
    | some (.tables _) => some parent
    | some _ => none) path
  some ⟨root, .opened, keys, true⟩

def addEntry (p : Progress) (keys : List String) (d : Datum) : Option Progress := do
  let (path, key) ← splitKey keys
  let current ← p.current.addEntry path key (.value d)
  some { p with current := current }

end Progress

def readLine (p : Progress) (cs : List Char) : Option (Progress × List Char) :=
  match cs with
  | '[' :: '[' :: rest =>
    match readKey limit rest with
    | some (keys, ']' :: ']' :: rest) => do
      let p ← p.openItem keys
      let rest ← readLineEnd rest
      some (p, rest)
    | _ => none
  | '[' :: rest =>
    match readKey limit rest with
    | some (keys, ']' :: rest) => do
      let p ← p.openTable keys
      let rest ← readLineEnd rest
      some (p, rest)
    | _ => none
  | cs =>
    match readKey limit cs with
    | some (keys, '=' :: rest) => do
      let (d, rest) ← readValue (rest.length + 1) 0 (skipBlank rest)
      let p ← p.addEntry keys d
      let rest ← readLineEnd rest
      some (p, rest)
    | _ => none

def readLines : Nat → Progress → List Char → Option Table
  | 0, _, _ => none
  | fuel + 1, p, cs =>
    match skipBlank cs with
    | [] => p.close
    | '#' :: rest => (readLineEnd ('#' :: rest)).bind (readLines fuel p)
    | '\n' :: rest => readLines fuel p rest
    | '\r' :: '\n' :: rest => readLines fuel p rest
    | rest => (readLine p rest).bind fun (p, rest) ↦ readLines fuel p rest

def read (s : String) : Option Datum :=
  let cs := match s.toList with
    | '\uFEFF' :: cs => cs
    | cs => cs
  (readLines (cs.length + 1) .start cs).map fun t ↦ t.node.datum

end Listing.Toml
