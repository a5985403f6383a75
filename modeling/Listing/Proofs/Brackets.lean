import Listing.Proofs.Tokens

namespace Listing

namespace Token

/-- What stands before the bracket that closes, with `depth` brackets that open on the way, and what
stands behind it. -/
def enclosed : Nat → List Token → Option (List Token × List Token)
  | _, [] => none
  | depth, t :: ts =>
    if t = .word "(" then (enclosed (depth + 1) ts).map fun (a, b) ↦ (t :: a, b)
    else if t = .word ")" then
      match depth with
      | 0 => some ([], ts)
      | depth + 1 => (enclosed depth ts).map fun (a, b) ↦ (t :: a, b)
    else (enclosed depth ts).map fun (a, b) ↦ (t :: a, b)

/-- The tokens that stand in no more than `depth` brackets, those of the brackets included. -/
def outside : Nat → List Token → List Token
  | _, [] => []
  | depth, t :: ts =>
    if t = .word "(" then outside (depth + 1) ts
    else if t = .word ")" then outside (depth - 1) ts
    else if depth = 0 then t :: outside 0 ts
    else outside depth ts

def isBracket (t : Token) : Bool := t = .word "(" || t = .word ")"

inductive Balanced : List Token → Prop
  | nil : Balanced []
  | single {t : Token} : isBracket t = false → Balanced [t]
  | group {ts : List Token} : Balanced ts → Balanced (.word "(" :: (ts ++ [.word ")"]))
  | append {a b : List Token} : Balanced a → Balanced b → Balanced (a ++ b)

variable {ts rest : List Token} {depth : Nat}

theorem Balanced.of_forall (h : ∀ t ∈ ts, isBracket t = false) : Balanced ts := by
  induction ts with
  | nil => exact .nil
  | cons t ts ih =>
    obtain ⟨ht, hts⟩ := List.forall_mem_cons.1 h
    exact .append (.single ht) (ih hts)

theorem ne_of_not_isBracket {t : Token} (h : isBracket t = false) :
    t ≠ .word "(" ∧ t ≠ .word ")" := by
  simpa [isBracket] using h

theorem Balanced.enclosed_append (h : Balanced ts) (depth : Nat) (rest : List Token) :
    enclosed depth (ts ++ rest) = (enclosed depth rest).map fun (a, b) ↦ (ts ++ a, b) := by
  induction h generalizing depth rest with
  | nil => simp
  | single ht =>
    obtain ⟨hopen, hclose⟩ := ne_of_not_isBracket ht
    simp [enclosed, hopen, hclose]
  | group _ ih =>
    simp [enclosed, ih, Function.comp_def]
  | append _ _ iha ihb =>
    rw [List.append_assoc, iha, ihb]
    simp [Function.comp_def, List.append_assoc]

theorem Balanced.enclosed_eq (h : Balanced ts) (rest : List Token) :
    enclosed 0 (ts ++ .word ")" :: rest) = some (ts, rest) := by
  rw [h.enclosed_append]
  simp [enclosed]

theorem Balanced.outside_append_deep (h : Balanced ts) (depth : Nat) (rest : List Token) :
    outside (depth + 1) (ts ++ rest) = outside (depth + 1) rest := by
  induction h generalizing depth rest with
  | nil => rfl
  | single ht =>
    obtain ⟨hopen, hclose⟩ := ne_of_not_isBracket ht
    simp [outside, hopen, hclose]
  | group _ ih => simp [outside, ih]
  | append _ _ iha ihb => rw [List.append_assoc, iha, ihb]

theorem Balanced.outside_append (h : Balanced ts) (rest : List Token) :
    outside 0 (ts ++ rest) = outside 0 ts ++ outside 0 rest := by
  induction h generalizing rest with
  | nil => rfl
  | single ht =>
    obtain ⟨hopen, hclose⟩ := ne_of_not_isBracket ht
    simp [outside, hopen, hclose]
  | group h _ => simp [outside, h.outside_append_deep]
  | append _ _ iha ihb => rw [List.append_assoc, iha, iha, ihb, List.append_assoc]

theorem Balanced.outside_group (h : Balanced ts) :
    outside 0 (.word "(" :: (ts ++ [.word ")"])) = [] := by
  simp [outside, h.outside_append_deep]

theorem mem_of_mem_outside {t : Token} (h : t ∈ outside depth ts) : t ∈ ts := by
  induction ts generalizing depth with
  | nil => exact h
  | cons t' ts ih =>
    rw [outside] at h
    split_ifs at h
    · exact List.mem_cons_of_mem _ (ih h)
    · exact List.mem_cons_of_mem _ (ih h)
    · rcases List.mem_cons.1 h with rfl | h
      · exact List.mem_cons_self
      · exact List.mem_cons_of_mem _ (ih h)
    · exact List.mem_cons_of_mem _ (ih h)

theorem Balanced.cons {t : Token} (ht : isBracket t = false) (h : Balanced ts) :
    Balanced (t :: ts) := .append (.single ht) h

end Token

end Listing
