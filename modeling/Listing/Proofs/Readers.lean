import Listing.Proofs.Tokens

namespace Listing

abbrev Reader (α : Type) := List Token → Option (α × List Token)

namespace Reader

variable {α β : Type} {separator w : String} {read : Reader α} {rest : List Token}

def skipWord (w : String) : List Token → Option (List Token)
  | .word w' :: ts => if w' = w then some ts else none
  | _ => none

def before (w : String) (read : Reader α) : Reader α := fun ts ↦
  (read ts).bind fun (x, rest) ↦ (skipWord w rest).map (x, ·)

/-- One part, or up to as many as given with a word between any two. -/
def sepBy (separator : String) (read : Reader α) : Nat → Reader (List α)
  | 0, _ => none
  | n + 1, ts =>
    (read ts).bind fun (x, rest) ↦
      match skipWord separator rest with
      | none => some ([x], rest)
      | some rest => (sepBy separator read n rest).map fun (xs, rest) ↦ (x :: xs, rest)

def column : Reader ColumnRef
  | .name t :: .word dot :: .name c :: ts => if dot = "." then some (⟨t, c⟩, ts) else none
  | _ => none

@[simp] theorem skipWord_self (w : String) (ts : List Token) :
    skipWord w (.word w :: ts) = some ts :=
  if_pos rfl

theorem before_of_eq {ts : List Token} {x : α} (h : read ts = some (x, .word w :: rest)) :
    before w read ts = some (x, rest) := by
  simp [before, h]

/-- Parts are read one after another if each is read in front of the separator and in front of what
stands behind them. -/
theorem sepBy_intercalate (goesOn : List Token → Prop) {tokens : β → List Token} {value : β → α}
    {xs : List β} {n : Nat} (hread : ∀ x ∈ xs, ∀ rest, goesOn rest →
      read (tokens x ++ rest) = some (value x, rest))
    (hseparator : ∀ rest, goesOn (.word separator :: rest)) (hrest : goesOn rest)
    (hskip : skipWord separator rest = none) (hne : xs ≠ []) (hn : xs.length ≤ n) :
    sepBy separator read n ([Token.word separator].intercalate (xs.map tokens) ++ rest) =
      some (xs.map value, rest) := by
  induction xs generalizing n with
  | nil => exact absurd rfl hne
  | cons x xs ih =>
    obtain ⟨hx, hxs⟩ := List.forall_mem_cons.1 hread
    obtain ⟨n, rfl⟩ : ∃ m, n = m + 1 := Nat.exists_eq_add_one.2 (by simp at hn; omega)
    have hn : xs.length ≤ n := Nat.le_of_succ_le_succ hn
    cases xs with
    | nil => simp [sepBy, hx rest hrest, hskip]
    | cons y xs =>
      have hrest := ih hxs (List.cons_ne_nil _ _) hn
      rw [List.map_cons] at hrest
      rw [List.map_cons, List.map_cons, List.intercalate_cons_cons, List.append_assoc,
        List.append_assoc, List.singleton_append, sepBy, hx _ (hseparator _)]
      simp [hrest]

theorem length_le_of_mem_intercalate {α : Type} (s : List α) {l : List α} {ls : List (List α)}
    (h : l ∈ ls) : l.length ≤ (s.intercalate ls).length := by
  induction ls with
  | nil => simp at h
  | cons m ls ih =>
    cases ls with
    | nil =>
      obtain rfl := List.mem_singleton.1 h
      rw [List.intercalate_singleton]
    | cons m' ls =>
      rw [List.intercalate_cons_cons, List.length_append, List.length_append]
      rcases List.mem_cons.1 h with rfl | h
      · omega
      · have := ih h
        omega

theorem length_le_intercalate {α : Type} (s : α) (ls : List (List α)) :
    ls.length ≤ ([s].intercalate ls).length + 1 := by
  induction ls with
  | nil => simp
  | cons m ls ih =>
    cases ls with
    | nil => simp
    | cons m' ls =>
      rw [List.intercalate_cons_cons, List.length_append, List.length_append, List.length_cons,
        List.length_singleton]
      omega

theorem intercalate_concat {α : Type} (s : α) {ls : List (List α)} (h : ls ≠ []) (l : List α) :
    [s].intercalate (ls ++ [l]) = [s].intercalate ls ++ s :: l := by
  induction ls with
  | nil => exact absurd rfl h
  | cons m ls ih =>
    cases ls with
    | nil => simp
    | cons m' ls =>
      rw [List.cons_append, List.intercalate_cons_of_ne_nil (by simp), ih (by simp),
        List.intercalate_cons_cons, List.append_assoc _ ([s].intercalate _)]

theorem sepBy_eq_none {ts : List Token} (h : read ts = none) (n : Nat) :
    sepBy separator read n ts = none := by
  cases n with
  | zero => rfl
  | succ n => simp [sepBy, h]

theorem sepBy_one {ts : List Token} {x : α} {n : Nat} (h : read ts = some (x, rest))
    (hskip : skipWord separator rest = none) :
    sepBy separator read (n + 1) ts = some ([x], rest) := by
  simp [sepBy, h, hskip]

theorem sepBy_two {ts ts' : List Token} {x y : α} {n : Nat}
    (hx : read ts = some (x, .word separator :: ts')) (hy : read ts' = some (y, rest))
    (hskip : skipWord separator rest = none) :
    sepBy separator read (n + 2) ts = some ([x, y], rest) := by
  have hrest : sepBy separator read (n + 1) ts' = some ([y], rest) := sepBy_one hy hskip
  simp [sepBy, hx, hy, hskip]

end Reader

namespace Token

def ofColumn (c : ColumnRef) : List Token := [.name c.table, .word ".", .name c.column]

@[simp] theorem column_ofColumn (c : ColumnRef) (rest : List Token) :
    Reader.column (ofColumn c ++ rest) = some (c, rest) := rfl

end Token

namespace Reader

theorem sepBy_columns {cs : List ColumnRef} {rest : List Token} {n : Nat} (hne : cs ≠ [])
    (hskip : skipWord "," rest = none)
    (hn : ([Token.word ","].intercalate (cs.map Token.ofColumn)).length < n) :
    sepBy "," column n ([Token.word ","].intercalate (cs.map Token.ofColumn) ++ rest) =
      some (cs, rest) := by
  have hcount := length_le_intercalate (Token.word ",") (cs.map Token.ofColumn)
  rw [List.length_map] at hcount
  have hread : ∀ c ∈ cs, ∀ rest, True → column (Token.ofColumn c ++ rest) = some (id c, rest) :=
    fun c _ rest _ ↦ Token.column_ofColumn c rest
  have hall := sepBy_intercalate (fun _ ↦ True) hread (fun _ ↦ trivial) trivial hskip hne
    (n := n) (by omega)
  rwa [List.map_id] at hall

end Reader

namespace Draft

variable {d : Dialect} {bound : Nat} {separator : String}

@[simp] theorem tokensFrom_column (c : ColumnRef) :
    tokensFrom d bound (column c) = Token.ofColumn c := rfl

theorem tokensFrom_separated_of_eq {β : Type} {f : β → Draft} {tokens : β → List Token}
    (h : ∀ x bound, tokensFrom d bound (f x) = tokens x) (separator : String) (l : List β) :
    tokensFrom d bound (separated separator (l.map f)) =
      (Token.ofText separator).intercalate (l.map tokens) := by
  have htokens : (numbered f bound l).map (fun m ↦ tokensFrom d m.1 (f m.2)) =
      ((numbered f bound l).map Prod.snd).map tokens := by
    rw [List.map_map]
    exact List.map_congr_left fun m _ ↦ h m.2 m.1
  rw [tokensFrom_separated, htokens, map_snd_numbered]

theorem tokensFrom_separated_column (separator : String) (cs : List ColumnRef) :
    tokensFrom d bound (separated separator (cs.map column)) =
      (Token.ofText separator).intercalate (cs.map Token.ofColumn) :=
  tokensFrom_separated_of_eq (fun _ _ ↦ rfl) separator cs

/-- The parts of a draft are read one after another, each with as many values before it as are
written there. -/
theorem sepBy_separated {α β : Type} {w text : String} {f : β → Draft} {l : List β}
    {read : Reader α} {value : Nat × β → α} {rest : List Token} {n : Nat}
    (hword : Token.ofText text = [.word w]) (goesOn : List Token → Prop)
    (hread : ∀ m ∈ numbered f bound l, (tokensFrom d m.1 (f m.2)).length < n →
      ∀ rest, goesOn rest → read (tokensFrom d m.1 (f m.2) ++ rest) = some (value m, rest))
    (hseparator : ∀ rest, goesOn (.word w :: rest)) (hrest : goesOn rest)
    (hskip : Reader.skipWord w rest = none) (hne : l ≠ [])
    (hn : (tokensFrom d bound (separated text (l.map f))).length < n) :
    Reader.sepBy w read n (tokensFrom d bound (separated text (l.map f)) ++ rest) =
      some ((numbered f bound l).map value, rest) := by
  have hnumbered : numbered f bound l ≠ [] := by
    intro hnil
    have hmap := map_snd_numbered f bound l
    rw [hnil] at hmap
    exact hne hmap.symm
  rw [tokensFrom_separated, hword] at hn ⊢
  apply Reader.sepBy_intercalate goesOn _ hseparator hrest hskip hnumbered
  · have hcount := Reader.length_le_intercalate (Token.word w)
      ((numbered f bound l).map fun m ↦ tokensFrom d m.1 (f m.2))
    rw [List.length_map] at hcount
    omega
  · intro m hm rest hgoes
    apply hread m hm _ rest hgoes
    have hpart := Reader.length_le_of_mem_intercalate [Token.word w]
      (List.mem_map_of_mem (f := fun m ↦ tokensFrom d m.1 (f m.2)) hm)
    omega

end Draft

end Listing
