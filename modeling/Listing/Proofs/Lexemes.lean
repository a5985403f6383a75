import Listing.Statement.Basic

namespace Listing

inductive Lexeme
  /-- A character outside names. -/
  | char (c : Char)
  | name (name : String)
  deriving DecidableEq, Repr

namespace Lexeme

inductive Reading
  | outside
  | inside (read : List Char)
  /-- After a mark inside a name, which another mark would double. -/
  | marked (read : List Char)

/-- The lexemes of a text. A text that ends inside a name has none. -/
def scanFrom (mark : Char) : Reading → List Char → Option (List Lexeme)
  | .outside, [] => some []
  | .inside _, [] => none
  | .marked read, [] => some [.name (String.ofList read)]
  | .outside, c :: cs =>
    if c = mark then scanFrom mark (.inside []) cs
    else (scanFrom mark .outside cs).map (.char c :: ·)
  | .inside read, c :: cs =>
    if c = mark then scanFrom mark (.marked read) cs
    else scanFrom mark (.inside (read ++ [c])) cs
  | .marked read, c :: cs =>
    if c = mark then scanFrom mark (.inside (read ++ [mark])) cs
    else (scanFrom mark .outside cs).map fun ls ↦ .name (String.ofList read) :: .char c :: ls

def scan (mark : Char) (text : String) : Option (List Lexeme) :=
  scanFrom mark .outside text.toList

def names (ls : List Lexeme) : List String :=
  ls.filterMap fun
    | .name n => some n
    | .char _ => none

def digits : List Lexeme → List Char
  | .char c :: ls => if c.isDigit then c :: digits ls else []
  | _ => []

/-- Every sign outside names, together with the digits that follow it. -/
def placeholders (sign : Char) : List Lexeme → List String
  | [] => []
  | .name _ :: ls => placeholders sign ls
  | .char c :: ls =>
    if c = sign then String.ofList (c :: digits ls) :: placeholders sign ls
    else placeholders sign ls

variable {mark : Char} {read cs rest : List Char}

theorem scanFrom_marked (h : rest.head? ≠ some mark) :
    scanFrom mark (.marked read) rest =
      (scanFrom mark .outside rest).map (.name (String.ofList read) :: ·) := by
  cases rest with
  | nil => rfl
  | cons c rest =>
    have hc : c ≠ mark := by simpa using h
    simp [scanFrom, hc, Function.comp_def]

theorem scanFrom_inside (cs : List Char) :
    scanFrom mark (.inside read) (Text.replace mark [mark, mark] cs ++ mark :: rest) =
      scanFrom mark (.marked (read ++ cs)) rest := by
  induction cs generalizing read with
  | nil => simp [Text.replace, scanFrom]
  | cons c cs ih =>
    have hcons : Text.replace mark [mark, mark] (c :: cs) =
        (if c = mark then [mark, mark] else [c]) ++ Text.replace mark [mark, mark] cs := rfl
    rw [hcons]
    by_cases hc : c = mark
    · simp [scanFrom, hc, ih]
    · simp [scanFrom, hc, ih]

theorem scanFrom_quoteName (name : String) (h : rest.head? ≠ some mark) :
    scanFrom mark .outside (quoteName mark name ++ rest) =
      (scanFrom mark .outside rest).map (.name name :: ·) := by
  have hquoted : quoteName mark name ++ rest =
      mark :: (Text.replace mark [mark, mark] name.toList ++ mark :: rest) := by
    simp [quoteName]
  rw [hquoted, scanFrom, if_pos rfl, scanFrom_inside, List.nil_append, scanFrom_marked h,
    String.ofList_toList]

theorem scanFrom_outside (h : mark ∉ cs) :
    scanFrom mark .outside (cs ++ rest) =
      (scanFrom mark .outside rest).map (cs.map .char ++ ·) := by
  induction cs with
  | nil => simp
  | cons c cs ih =>
    simp only [List.mem_cons, not_or] at h
    obtain ⟨hc, hcs⟩ := h
    simp [scanFrom, Ne.symm hc, ih hcs, Function.comp_def]

end Lexeme

end Listing
