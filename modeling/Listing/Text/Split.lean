namespace Listing.Text

def split (separator : Char) (s : String) : List String :=
  (s.toList.splitOn separator).map String.ofList

def join (separator : String) (parts : List String) : String :=
  String.ofList (separator.toList.intercalate (parts.map String.toList))

def replace (c : Char) (written : List Char) (cs : List Char) : List Char :=
  cs.flatMap fun x ↦ if x = c then written else [x]

def occursIn (part : List Char) : List Char → Bool
  | [] => part.isEmpty
  | c :: cs => part.isPrefixOf (c :: cs) || occursIn part cs

end Listing.Text
