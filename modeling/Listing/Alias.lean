import Listing.Keyed
import Listing.Path
import Listing.Text.LowerCase

namespace Listing

structure ColumnRef where
  table : String
  column : String
  deriving DecidableEq, Repr

def ColumnRef.text (c : ColumnRef) : String := c.table ++ "." ++ c.column

namespace Alias

def ofEntity (name : String) : String :=
  match name.toList with
  | [] => ""
  | c :: cs => String.ofList (Text.lowerChar c ++ cs)

def ofPath (p : Path) : String := Text.join "_" p.segments

def numbered (natural : String) (k : Nat) : String := natural ++ "_" ++ toString k

def candidates (natural : String) (taken : List String) : List String :=
  natural :: (List.range taken.length).map fun k ↦ numbered natural (k + 2)

def free (natural : String) (taken : List String) : String :=
  ((candidates natural taken).find? (!taken.contains ·)).getD natural

def qualify (f : Field) (root : String) : String :=
  ColumnRef.text ⟨(f.relation.map ofPath).getD root, f.column⟩

end Alias

structure AliasTable where
  root : String
  byPath : Keyed String
  taken : List String
  deriving DecidableEq, Repr

namespace AliasTable

def ofRoot (entity : String) : AliasTable :=
  let root := Alias.ofEntity entity
  ⟨root, [], [root]⟩

def get? (t : AliasTable) (p : Path) : Option String := t.byPath.get? p

/-- Takes a free alias that belongs to no path. -/
def reserve (t : AliasTable) (natural : String) : String × AliasTable :=
  let name := Alias.free natural t.taken
  (name, { t with taken := name :: t.taken })

/-- The alias of a path, which is assigned the first time. -/
def resolve (t : AliasTable) (p : Path) : String × AliasTable :=
  match t.get? p with
  | some name => (name, t)
  | none =>
    let (name, t) := t.reserve (Alias.ofPath p)
    (name, { t with byPath := t.byPath ++ [(p, name)] })

def resolve? (t : AliasTable) : Option Path → String × AliasTable
  | some p => t.resolve p
  | none => (t.root, t)

def column (t : AliasTable) (f : Field) : ColumnRef × AliasTable :=
  let (name, t) := t.resolve? f.relation
  (⟨name, f.column⟩, t)

def columns (t : AliasTable) : List Field → List ColumnRef × AliasTable
  | [] => ([], t)
  | f :: fs =>
    let (c, t) := t.column f
    let (cs, t) := columns t fs
    (c :: cs, t)

end AliasTable

end Listing
