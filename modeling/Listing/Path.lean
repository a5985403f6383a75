import Listing.Text.Blank
import Listing.Text.Split

namespace Listing

abbrev Path := String

namespace Path

def segments (p : Path) : List String := Text.split '.' p

def ofSegments (segments : List String) : Path := Text.join "." segments

def depth (p : Path) : Nat := p.segments.length

def initials {α : Type} : List α → List (List α)
  | [] => []
  | a :: l => [a] :: (initials l).map (a :: ·)

/-- Every path on the way to `p`, from its first segment to `p` itself. -/
def ancestors (p : Path) : List Path := (initials p.segments).map ofSegments

def parent? (p : Path) : Option Path :=
  match p.segments with
  | [] | [_] => none
  | segments => some (ofSegments segments.dropLast)

def leaf (p : Path) : String := p.segments.getLast?.getD ""

/-- Whether `p` passes through `a` or ends there. -/
def passes (p a : Path) : Bool := a.segments.isPrefixOf p.segments

def isCovered (p : Path) (declared : List Path) : Bool := declared.any fun d ↦ passes d p

def isWellFormed (p : Path) : Bool := p.segments.all fun s ↦ !Text.isBlankText s

/-- All ancestors of the given paths, each once, the shorter ones first. -/
def expand (paths : List Path) : List Path :=
  (paths.flatMap ancestors).eraseDups.mergeSort fun p q ↦ p.depth ≤ q.depth

end Path

/-- A column of the root, or of the entity at the end of a relation path. -/
structure Field where
  relation : Option Path
  column : String
  deriving DecidableEq, Repr

namespace Field

def ofText (s : String) : Field := ⟨Path.parent? s, Path.leaf s⟩

def text (f : Field) : String :=
  match f.relation with
  | some p => p ++ "." ++ f.column
  | none => f.column

end Field

end Listing
