import Listing.Error
import Listing.Json.Reader
import Listing.Text.Utf8
import Listing.Toml.Reader

namespace Listing

inductive DocumentFormat
  | json
  | toml
  deriving DecidableEq, Repr

namespace DocumentFormat

def read : DocumentFormat → String → Option Datum
  | json => Json.read
  | toml => Toml.read

/-- What a choice without content holds when it is written as a table of one entry. -/
def isHollow : DocumentFormat → Datum → Bool
  | json, .null => true
  | toml, .list [] | toml, .table [] => true
  | _, _ => false

def choice? (f : DocumentFormat) : Datum → Option String
  | .text s => some s
  | .table [(name, content)] => if f.isHollow content then some name else none
  | _ => none

end DocumentFormat

/-- A name of a part, and the other names that it may go by. -/
structure PartName where
  name : String
  others : List String := []

def PartName.matches (p : PartName) (key : String) : Bool := p.name = key || p.others.contains key

structure Parts where
  byName : Bool
  given : Keyed Datum

namespace Parts

def entryOf? (entries : List (String × Datum)) (p : PartName) : Option (List (String × Datum)) :=
  match entries.filter fun e ↦ p.matches e.1 with
  | [] => some []
  | [e] => some [(p.name, e.2)]
  | _ => none

def of? (names : List PartName) : Datum → Option Parts
  | .table entries => (names.mapM (entryOf? entries)).map fun found ↦ ⟨true, found.flatten⟩
  | .list items =>
    if items.length ≤ names.length then some ⟨false, (names.map (·.name)).zip items⟩ else none
  | _ => none

def required {α : Type} (p : Parts) (name : String) (read : Datum → Option α) : Option α :=
  (p.given.get? name).bind read

def orElse {α : Type} (p : Parts) (name : String) (default : α) (read : Datum → Option α) :
    Option α :=
  match p.given.get? name with
  | some d => read d
  | none => some default

/-- A part that may be left out of a table, but not of a list. -/
def optional {α : Type} (p : Parts) (name : String) (read : Datum → Option α) :
    Option (Option α) :=
  match p.given.get? name with
  | some d => d.option? read
  | none => if p.byName then some none else none

end Parts

def texts? : Datum → Option (List String) := Datum.listOf? Datum.text?

def textsDatum (ss : List String) : Datum := .list (ss.map .text)

def optionDatum {α : Type} (write : α → Datum) : Option α → Datum
  | some a => write a
  | none => .null

def readDocument {α : Type} (f : DocumentFormat) (name : String) (read : Datum → Option α)
    (content : String) : Except QueryError α :=
  match (f.read content).bind read with
  | some a => .ok a
  | none => .error ((QueryError.configuration (.malformed name)).causedBy (.external ""))

/-- What is found where a file is looked for. -/
inductive FileContent
  | absent
  | bytes (content : List UInt8)

namespace FileContent

def text : FileContent → Except String String
  | absent => .error "No such file or directory (os error 2)"
  | bytes content =>
    match Text.ofUtf8? content with
    | some s => .ok s
    | none => .error "stream did not contain valid UTF-8"

def get (c : FileContent) (document location : String) : Except QueryError String :=
  c.text.mapError fun reason ↦
    (QueryError.configuration (.unreachable document location reason)).causedBy (.external reason)

end FileContent

end Listing
