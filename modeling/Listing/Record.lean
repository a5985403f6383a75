import Listing.Json.Writer
import Listing.Plan.Basic

namespace Listing

/-- A result row: the value of each output. -/
abbrev Row := Keyed Datum

def cell (row : Row) (output : String) : Datum := (row.get? output).getD .null

/-- What is built of the rows: columns with the outputs that hold them, the outputs that tell one
instance from another, and the nested relations. -/
inductive Shape
  | mk (columns : List (String × String)) (key : List String) (many : Bool)
    (children : List (String × Shape))
  deriving Repr

namespace Shape

def columns : Shape → List (String × String)
  | mk columns _ _ _ => columns

def key : Shape → List String
  | mk _ key _ _ => key

def many : Shape → Bool
  | mk _ _ many _ => many

def children : Shape → List (String × Shape)
  | mk _ _ _ children => children

mutual

def hasContent : Shape → Bool
  | mk columns _ _ children => !columns.isEmpty || anyContent children

def anyContent : List (String × Shape) → Bool
  | [] => false
  | (_, child) :: rest => child.hasContent || anyContent rest

end

/-- Puts a relation under the shape that a path leads to; nowhere if the path leads to none. -/
def graft (name : String) (child : Shape) : List String → Shape → Shape
  | [], mk columns key many children => mk columns key many (Keyed.put children name child)
  | s :: ss, mk columns key many children =>
    mk columns key many (children.map fun (n, c) ↦ (n, if n = s then graft name child ss c else c))

/-- The outputs of the primary key that a join selects, or else those of all its columns. -/
def keyOf (j : Join) : List String :=
  let output (c : String) : String := Field.text ⟨some j.path, c⟩
  match j.primaryKey.filter j.columns.contains with
  | [] => j.columns.map output
  | key => key.map output

def ofJoin (j : Join) : Shape :=
  mk (j.columns.map fun c ↦ (Field.text ⟨some j.path, c⟩, c)) (keyOf j) j.kind.isMany []

def addJoin (root : Shape) (j : Join) : Shape :=
  graft j.path.leaf (ofJoin j) ((j.path.parent?.map Path.segments).getD []) root

def ofPlan (p : Plan) : Shape :=
  let outputs := (p.select.map (·.output)).filter fun o ↦ !o.toList.contains '.'
  p.joins.foldl addJoin (mk (outputs.map fun o ↦ (o, o)) p.primaryKey false [])

end Shape

/-- Rows by the text of their key. -/
abbrev Groups := Keyed (List Row)

namespace Groups

def add (g : Groups) (key : String) (row : Row) : Groups :=
  Keyed.put g key ((Keyed.get? g key).getD [] ++ [row])

def keyValues (key : List String) (row : Row) : List Datum := key.map (cell row)

/-- Rows with equal keys together, in the order of their first rows. Where asked to, rows with
nothing but nulls in the key are left out. -/
def ofRows (key : List String) (skipNull : Bool) (rows : List Row) : Groups :=
  rows.foldl (fun g row ↦
    let values := keyValues key row
    if skipNull && values.all Datum.isNull then g
    else g.add (Json.render (.list values)) row) []

def toLists (g : Groups) : List (List Row) := g.map (·.2)

end Groups

namespace Shape

def ownColumns (columns : List (String × String)) (first : Row) : Keyed Datum :=
  Keyed.ofEntries (columns.map fun (output, field) ↦ (field, cell first output))

def isAbsent (child : Shape) (first : Row) : Bool :=
  !child.columns.isEmpty && child.columns.all fun (output, _) ↦ (cell first output).isNull

/-- The value of a relation, by the way in which one instance of it is built. -/
def relationValue (child : Shape) (build : List Row → Keyed Datum) (first : Row)
    (rows : List Row) : Datum :=
  if child.many then
    .list ((Groups.ofRows child.key true rows).toLists.map fun group ↦ .table (build group))
  else if child.isAbsent first then .null
  else .table (build rows)

mutual

/-- The record that rows of one instance amount to. -/
def record : Shape → List Row → Keyed Datum
  | _, [] => []
  | mk columns _ _ children, first :: rest =>
    withRelations first (first :: rest) (ownColumns columns first) children

def withRelations (first : Row) (rows : List Row) (done : Keyed Datum) :
    List (String × Shape) → Keyed Datum
  | [] => done
  | (name, child) :: others =>
    if child.hasContent then
      withRelations first rows (done.put name (relationValue child (record child) first rows))
        others
    else withRelations first rows done others

end

/-- One record for each row, or for each key when rows are grouped. -/
def records (shape : Shape) (grouped : Bool) (rows : List Row) : List (Keyed Datum) :=
  if grouped then (Groups.ofRows shape.key false rows).toLists.map shape.record
  else rows.map fun row ↦ shape.record [row]

end Shape

namespace Plan

def records (p : Plan) (rows : List Row) : List Datum :=
  ((Shape.ofPlan p).records p.hasToMany rows).map .table

def decode {α : Type} (p : Plan) (read : Datum → Option α) (rows : List Row) :
    Except QueryError (List α) :=
  (p.records rows).mapM fun d ↦
    match read d with
    | some a => .ok a
    | none => .error <|
      ((QueryError.of (.undecodable "")).onModel p.rootEntity).causedBy (.external "")

end Plan

end Listing
