import Listing.Alias
import Listing.Number.Shortest
import Listing.Text.Blank

namespace Listing

open Number

inductive FilterValue
  | null
  | bool (b : Bool)
  | int (i : Int)
  | float (x : Double)
  | text (s : String)
  | list (items : List FilterValue)
  deriving Repr, Inhabited

namespace FilterValue

def isNull : FilterValue → Bool
  | null => true
  | _ => false

def isList : FilterValue → Bool
  | list _ => true
  | _ => false

def text? : FilterValue → Option String
  | null | list _ => none
  | bool b => some (if b then "true" else "false")
  | int i => some (toString i)
  | float x => some x.text
  | text s => some s

def commaParts (s : String) : List String :=
  ((Text.split ',' s).map Text.trim).filter (· ≠ "")

/-- The members of a list; a text with commas lists its parts, another scalar itself. -/
def members : FilterValue → List FilterValue
  | list items => items
  | null => []
  | text s => if s.toList.contains ',' then (commaParts s).map text else [text s]
  | scalar => [scalar]

def containing (v : FilterValue) : FilterValue := text ("%" ++ v.text?.getD "" ++ "%")

def bounds? : FilterValue → Option (FilterValue × FilterValue)
  | list [low, high] => some (low, high)
  | _ => none

end FilterValue

inductive Operator
  | equals
  | notEquals
  | like
  | ilike
  | isIn
  | notIn
  | gt
  | gte
  | lt
  | lte
  | between
  | isNull
  | isNotNull
  deriving DecidableEq, Repr

structure FilterCondition where
  field : String
  operator : Operator
  value : FilterValue
  /-- The relation path the field belongs to; the root without one. -/
  relation : Option Path
  deriving Repr

def FilterCondition.isValidBetween (f : FilterCondition) : Bool := f.value.bounds?.isSome

/-- Values by parameter name, in the order in which they are bound. -/
abbrev Bindings := Keyed FilterValue

inductive Comparison
  | eq
  | ne
  | like
  | gt
  | gte
  | lt
  | lte
  deriving DecidableEq, Repr

def Comparison.sql : Comparison → String
  | eq => "="
  | ne => "!="
  | like => "LIKE"
  | gt => ">"
  | gte => ">="
  | lt => "<"
  | lte => "<="

inductive Predicate
  | compare (column : ColumnRef) (comparison : Comparison) (param : String)
  | ilike (column : ColumnRef) (param : String)
  /-- With no members it is false, or true when negated. -/
  | inList (column : ColumnRef) (negated : Bool) (param : String) (empty : Bool)
  | between (column : ColumnRef) (low high : String)
  | null (column : ColumnRef) (negated : Bool)
  | any (group : List Predicate)
  deriving Repr

namespace Predicate

mutual

def params : Predicate → List String
  | compare _ _ param | ilike _ param => [param]
  | inList _ _ param empty => if empty then [] else [param]
  | between _ low high => [low, high]
  | null _ _ => []
  | any group => groupParams group

def groupParams : List Predicate → List String
  | [] => []
  | p :: ps => p.params ++ groupParams ps

end

def truth (negated : Bool) : String := if negated then "TRUE" else "FALSE"

mutual

def text : Predicate → String
  | compare column comparison param => s!"{column.text} {comparison.sql} :{param}"
  | ilike column param => s!"LOWER({column.text}) LIKE LOWER(:{param})"
  | inList column negated param empty =>
    if empty then truth negated
    else column.text ++ (if negated then " NOT IN (:..." else " IN (:...") ++ param ++ ")"
  | between column low high => s!"{column.text} BETWEEN :{low} AND :{high}"
  | null column negated => column.text ++ if negated then " IS NOT NULL" else " IS NULL"
  | any group => "(" ++ Text.join " OR " (groupText group) ++ ")"

def groupText : List Predicate → List String
  | [] => []
  | p :: ps => p.text :: groupText ps

end

end Predicate

/-- Predicates that hold together, and the values of their parameters. -/
structure Conditions where
  predicates : List Predicate
  bindings : Bindings
  deriving Repr

namespace FilterCondition

def parameter (index : Nat) : String := "filter_" ++ toString index

/-- The predicate of a filter on a column and what it binds. A range without exactly two bounds has
none. -/
def compile (f : FilterCondition) (index : Nat) (column : ColumnRef) :
    Option (Predicate × List (String × FilterValue)) :=
  let param := parameter index
  let compared (c : Comparison) (v : FilterValue) :=
    some (Predicate.compare column c param, [(param, v)])
  let listed (negated : Bool) :=
    let members := f.value.members
    some (Predicate.inList column negated param members.isEmpty,
      if members.isEmpty then [] else [(param, FilterValue.list members)])
  match f.operator with
  | .equals => compared .eq f.value
  | .notEquals => compared .ne f.value
  | .gt => compared .gt f.value
  | .gte => compared .gte f.value
  | .lt => compared .lt f.value
  | .lte => compared .lte f.value
  | .like => compared .like f.value.containing
  | .ilike => some (.ilike column param, [(param, f.value.containing)])
  | .isIn => listed false
  | .notIn => listed true
  | .between =>
    f.value.bounds?.map fun (low, high) ↦
      (.between column (param ++ "_start") (param ++ "_end"),
        [(param ++ "_start", low), (param ++ "_end", high)])
  | .isNull => some (.null column false, [])
  | .isNotNull => some (.null column true, [])

end FilterCondition

namespace Conditions

/-- Filters from a given index on. Each of them looks up its alias, also one that is dropped. -/
def compileFrom (t : AliasTable) (index : Nat) (bound : Bindings) :
    List FilterCondition → Conditions × AliasTable
  | [] => (⟨[], bound⟩, t)
  | f :: fs =>
    let (column, t) := t.column ⟨f.relation, f.field⟩
    match f.compile index column with
    | none => compileFrom t (index + 1) bound fs
    | some (predicate, entries) =>
      let (rest, t) := compileFrom t (index + 1) (bound.putAll entries) fs
      (⟨predicate :: rest.predicates, rest.bindings⟩, t)

def ofFilters (filters : List FilterCondition) (t : AliasTable) : Conditions × AliasTable :=
  compileFrom t 0 [] filters

/-- A search for a term in several fields: one of them has to contain it. There is none for a blank
term or without fields. -/
def ofSearch (term : Option String) (fields : List String) (t : AliasTable) :
    Option Conditions × AliasTable :=
  match term.bind Text.nonBlank?, fields with
  | some term, _ :: _ =>
    let pattern := FilterValue.containing (.text term)
    let (columns, t) := t.columns (fields.map Field.ofText)
    let params := (List.range columns.length).map fun i ↦ "search_" ++ toString i
    let group := (columns.zip params).map fun (column, param) ↦
      Predicate.compare column .like param
    (some ⟨[.any group], Keyed.ofEntries (params.map fun p ↦ (p, pattern))⟩, t)
  | _, _ => (none, t)

end Conditions

end Listing
