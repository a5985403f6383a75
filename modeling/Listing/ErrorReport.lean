import Listing.Error

namespace Listing

namespace QueryError

def takeBytes : Nat → List Char → List Char
  | _, [] => []
  | budget, c :: cs =>
    if c.utf8Size ≤ budget then c :: takeBytes (budget - c.utf8Size) cs else []

/-- A statement of more than 200 bytes is cut. -/
def shortSql (sql : String) : String :=
  if sql.utf8ByteSize ≤ 200 then sql
  else String.ofList (takeBytes 200 sql.toList) ++ "..."

def contextLine (name : String) : Option String → String
  | some value => "  → " ++ name ++ ": " ++ value ++ "\n"
  | none => ""

def suggestionLines (number : Nat) (s : Suggestion) : String :=
  let code := match s.code with
    | some code =>
      let indented := String.ofList (Text.replace '\n' "\n     ".toList code.toList)
      "     ```\n     " ++ indented ++ "\n     ```\n"
    | none => ""
  s!"  {number}. " ++ s.text ++ "\n" ++ code

def report (e : QueryError) : String :=
  let c := e.context
  let paths := if c.paths.isEmpty then none else some (Text.join ", " c.paths)
  let suggestions := if c.suggestions.isEmpty then ""
    else "\nSuggestions:\n" ++
      String.join (c.suggestions.zipIdx.map fun (s, i) ↦ suggestionLines (i + 1) s)
  let help := match c.help with
    | some help => "\nHelp: " ++ help ++ "\n"
    | none => ""
  "Error [" ++ e.code.text ++ "]: " ++ e.message ++ "\n" ++
    contextLine "While" c.operation ++ contextLine "Model" c.model ++
    contextLine "Field" c.field ++ contextLine "Relations" paths ++
    contextLine "SQL" (c.sql.map shortSql) ++ suggestions ++ help

end QueryError

end Listing
