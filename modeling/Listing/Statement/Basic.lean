import Listing.Error
import Listing.Filter

namespace Listing

inductive Dialect
  | postgres
  | mysql
  | sqlite
  deriving DecidableEq, Repr

/-- A name between marks, with every mark inside it doubled. -/
def quoteName (mark : Char) (name : String) : List Char :=
  mark :: (Text.replace mark [mark, mark] name.toList ++ [mark])

namespace Dialect

def mark : Dialect → Char
  | postgres | sqlite => '"'
  | mysql => '\x60'

def quote (d : Dialect) (name : String) : String := String.ofList (quoteName d.mark name)

def placeholder (d : Dialect) (index : Nat) : String :=
  match d with
  | postgres => "$" ++ toString index
  | mysql | sqlite => "?"

end Dialect

inductive Piece
  | word (text : String)
  | name (name : String)
  | value (v : FilterValue)
  /-- A parameter that nothing is bound to, with which there is no statement. -/
  | unbound (param : String)
  deriving Repr

abbrev Draft := List Piece

structure Statement where
  sql : String
  params : List FilterValue
  deriving Repr

namespace Draft

def values (draft : Draft) : List FilterValue :=
  draft.filterMap fun
    | .value v => some v
    | _ => none

def textFrom (d : Dialect) (bound : Nat) : Draft → List Char
  | [] => []
  | .word text :: ps => text.toList ++ textFrom d bound ps
  | .name name :: ps => quoteName d.mark name ++ textFrom d bound ps
  | .value _ :: ps => (d.placeholder (bound + 1)).toList ++ textFrom d (bound + 1) ps
  | .unbound _ :: ps => textFrom d bound ps

def statement (d : Dialect) (draft : Draft) : Statement :=
  ⟨String.ofList (textFrom d 0 draft), draft.values⟩

def unbound? (draft : Draft) : Option String :=
  draft.findSome? fun
    | .unbound param => some param
    | _ => none

def isBound : Piece → Bool
  | .unbound _ => false
  | _ => true

def boundPart (draft : Draft) : Draft := draft.takeWhile isBound

def unboundError (param : String) : QueryError := .of (.internal s!"unbound parameter '{param}'")

def statement? (d : Dialect) (draft : Draft) : Except QueryError Statement :=
  match draft.unbound? with
  | some param => .error (unboundError param)
  | none => .ok (draft.statement d)

def separated (separator : String) (drafts : List Draft) : Draft :=
  [Piece.word separator].intercalate drafts

def column (c : ColumnRef) : Draft := [.name c.table, .word ".", .name c.column]

def columns (cs : List ColumnRef) : Draft := separated ", " (cs.map column)

/-- The value of a parameter; a list is written out member by member. -/
def param (bindings : Bindings) (name : String) : Draft :=
  match bindings.get? name with
  | none => [.unbound name]
  | some (.list vs) => separated ", " (vs.map fun v ↦ [.value v])
  | some v => [.value v]

mutual

def predicate (b : Bindings) : Predicate → Draft
  | .compare c comparison p =>
    column c ++ .word " " :: .word comparison.sql :: .word " " :: param b p
  | .ilike c p =>
    .word "LOWER(" :: (column c ++ .word ") LIKE LOWER(" :: (param b p ++ [.word ")"]))
  | .inList c negated p empty =>
    if empty then [.word (Predicate.truth negated)]
    else column c ++ .word (if negated then " NOT IN (" else " IN (") ::
      (param b p ++ [.word ")"])
  | .between c low high =>
    column c ++ .word " BETWEEN " :: (param b low ++ .word " AND " :: param b high)
  | .null c negated => column c ++ [.word (if negated then " IS NOT NULL" else " IS NULL")]
  | .any group => .word "(" :: (separated " OR " (predicates b group) ++ [.word ")"])

def predicates (b : Bindings) : List Predicate → List Draft
  | [] => []
  | p :: ps => predicate b p :: predicates b ps

end

end Draft

end Listing
