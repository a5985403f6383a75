import Listing.Proofs.Acceptance
import Listing.Proofs.Firsts
import Listing.Proofs.Identity
import Listing.Proofs.Readers
import Mathlib.Algebra.Order.BigOperators.Group.List
import Mathlib.Algebra.Order.Group.Nat

namespace Listing

inductive KeyKind
  | text
  | integer
  deriving DecidableEq, Repr

/-- What a column of a key holds, which is never null. -/
inductive KeyValue
  | text (s : String)
  | integer (i : Int)
  deriving DecidableEq, Repr

namespace KeyValue

def kind : KeyValue → KeyKind
  | text _ => .text
  | integer _ => .integer

def shown : KeyValue → String
  | text s => s
  | integer i => toString i

theorem eq_of_shown_eq {v w : KeyValue} (hkind : v.kind = w.kind) (h : v.shown = w.shown) :
    v = w := by
  cases v with
  | text s =>
    cases w with
    | text => exact congrArg text h
    | integer => simp [kind] at hkind
  | integer i =>
    cases w with
    | text => simp [kind] at hkind
    | integer => exact congrArg integer (Int.repr_inj.1 h)

theorem bar_not_mem_shown {v : KeyValue} (h : v.kind = .integer) : '|' ∉ v.shown.toList := by
  cases v with
  | text => simp [kind] at h
  | integer i =>
    intro hmem
    exact absurd ((Number.int_numeric i).2 '|' hmem) (by decide)

end KeyValue

inductive Atom
  | column (c : ColumnRef)
  | literal (text : String)
  deriving DecidableEq, Repr

namespace Atom

def quote : Char := '\x27'

def shown (key : ColumnRef → KeyValue) : Atom → String
  | column c => (key c).shown
  | literal text => text

def unquoted? (w : String) : Option String :=
  match w.toList with
  | [] => none
  | c :: cs =>
    if c = quote ∧ cs.getLast? = some quote then some (String.ofList cs.dropLast) else none

def read : Reader Atom
  | .word w :: ts => (unquoted? w).map fun text ↦ (.literal text, ts)
  | ts => (Reader.column ts).map fun (c, rest) ↦ (.column c, rest)

def tokens : Atom → List Token
  | column c => Token.ofColumn c
  | literal text => [.word (String.ofList (quote :: (text.toList ++ [quote])))]

theorem read_tokens (a : Atom) (rest : List Token) : read (a.tokens ++ rest) = some (a, rest) := by
  cases a with
  | column c => rfl
  | literal text => simp [tokens, read, unquoted?]

end Atom

/-- What is counted: rows whose members are concatenations. -/
abbrev CountedRow := List (List Atom)

namespace CountedRow

open Reader

def read (n : Nat) : Reader CountedRow := sepBy "," (sepBy "||" Atom.read n) n

/-- What stands in brackets that have been opened, in brackets of its own or without. -/
def readEnclosed (n : Nat) : Reader CountedRow := fun ts ↦
  match skipWord "(" ts with
  | some inner => before ")" (before ")" (read n)) inner
  | none => before ")" (read n) ts

def ofTokens? (ts : List Token) : Option CountedRow := do
  let behind ← ["SELECT", "COUNT", "(", "DISTINCT"].foldlM (fun ts w ↦ skipWord w ts) ts
  let (row, _) ← readEnclosed behind.length behind
  some row

def ofStatement? (d : Dialect) (st : Statement) : Option CountedRow :=
  Token.ofStatement? d st >>= ofTokens?

/-- A column that stands alone is counted as it is, a concatenation as a text. -/
def valueOf (key : ColumnRef → KeyValue) : List Atom → KeyValue
  | [.column c] => key c
  | atoms => .text (Text.join "" (atoms.map (Atom.shown key)))

def value (row : CountedRow) (key : ColumnRef → KeyValue) : List KeyValue := row.map (valueOf key)

def total (row : CountedRow) (records : List (ColumnRef → KeyValue)) : Nat :=
  (records.map row.value).eraseDups.length

def ofKeys (d : Dialect) (keys : List ColumnRef) : CountedRow :=
  match d with
  | .postgres | .mysql => keys.map fun c ↦ [.column c]
  | .sqlite => [(keys.map Atom.column).intersperse (.literal "|")]

def tokens (row : CountedRow) : List Token :=
  [Token.word ","].intercalate
    (row.map fun atoms ↦ [Token.word "||"].intercalate (atoms.map Atom.tokens))

variable {d : Dialect} {keys : List ColumnRef} {row : CountedRow} {rest : List Token} {n : Nat}

theorem read_tokens (hne : row ≠ []) (hatoms : ∀ atoms ∈ row, atoms ≠ [] ∧ atoms.length ≤ n)
    (hn : row.length ≤ n) (hcomma : skipWord "," rest = none) (hbars : skipWord "||" rest = none) :
    read n (row.tokens ++ rest) = some (row, rest) := by
  have hread : ∀ atoms ∈ row, ∀ rest, skipWord "||" rest = none →
      sepBy "||" Atom.read n ([Token.word "||"].intercalate (atoms.map Atom.tokens) ++ rest) =
        some (id atoms, rest) := by
    intro atoms hmem rest hskip
    have hall := sepBy_intercalate (fun _ ↦ True)
      (fun a _ rest _ ↦ Atom.read_tokens a rest) (fun _ ↦ trivial) trivial hskip
      (hatoms atoms hmem).1 (hatoms atoms hmem).2
    rwa [List.map_id'] at hall
  have hrow := sepBy_intercalate (fun rest ↦ skipWord "||" rest = none) hread
    (fun _ ↦ rfl) hbars hcomma hne hn
  rwa [List.map_id] at hrow

theorem intercalate_intersperse {α : Type} (s t : List α) (l : List (List α)) :
    s.intercalate (l.intersperse t) = (s ++ t ++ s).intercalate l := by
  match l with
  | [] => rfl
  | [x] => simp
  | x :: y :: l =>
    have hrest := intercalate_intersperse s t (y :: l)
    obtain ⟨ms, hms⟩ : ∃ ms, (y :: l).intersperse t = y :: ms := by
      cases l with
      | nil => exact ⟨_, rfl⟩
      | cons z l => exact ⟨_, rfl⟩
    rw [List.intersperse_cons_cons, List.intercalate_cons_cons, hms, List.intercalate_cons_cons,
      ← hms, hrest, List.intercalate_cons_cons]
    simp [List.append_assoc]

theorem map_intersperse {α β : Type} (f : α → β) (a : α) (l : List α) :
    (l.intersperse a).map f = (l.map f).intersperse (f a) := by
  match l with
  | [] => rfl
  | [x] => rfl
  | x :: y :: l =>
    have hrest := map_intersperse f a (y :: l)
    simp [hrest]

def separator : Dialect → String
  | .postgres | .mysql => ", "
  | .sqlite => " || '|' || "

theorem tokens_ofKeys (d : Dialect) (keys : List ColumnRef) :
    tokens (ofKeys d keys) =
      (Token.ofText (separator d)).intercalate (keys.map Token.ofColumn) := by
  have hbars : Token.ofText " || '|' || " =
      [.word "||"] ++ Atom.tokens (.literal "|") ++ [.word "||"] := by
    decide
  cases d with
  | postgres | mysql => simp [ofKeys, separator, tokens, Function.comp_def, Atom.tokens]
  | sqlite =>
    rw [separator, hbars, ← intercalate_intersperse]
    simp [ofKeys, tokens, map_intersperse, Function.comp_def, Atom.tokens]

theorem tokensFrom_countedKeys (h : 2 ≤ keys.length) :
    Draft.tokensFrom d 0 (Draft.countedKeys d keys) =
      if d = .postgres then .word "(" :: (tokens (ofKeys d keys) ++ [.word ")"])
      else tokens (ofKeys d keys) := by
  unfold Draft.countedKeys
  split
  · simp at h
  · cases d <;> simp [tokens_ofKeys, separator, Draft.columns, Draft.tokensFrom_separated_column]

theorem length_ofColumns (s : List Token) (keys : List ColumnRef) :
    3 * keys.length ≤ (s.intercalate (keys.map Token.ofColumn)).length := by
  induction keys with
  | nil => simp
  | cons c keys ih =>
    cases keys with
    | nil => simp [Token.ofColumn]
    | cons c' keys =>
      rw [List.map_cons] at ih
      rw [List.map_cons, List.map_cons, List.intercalate_cons_cons]
      simp only [List.length_append, List.length_cons, Token.ofColumn] at ih ⊢
      omega

theorem skipWord_ofColumns (s : List Token) (w : String) (hkeys : keys ≠ []) :
    skipWord w (s.intercalate (keys.map Token.ofColumn) ++ rest) = none := by
  obtain ⟨c, keys, rfl⟩ := List.exists_cons_of_ne_nil hkeys
  cases keys with
  | nil => rfl
  | cons c' keys =>
    rw [List.map_cons, List.map_cons, List.intercalate_cons_cons]
    rfl

theorem read_ofKeys (hkeys : keys ≠ []) (hn : (tokens (ofKeys d keys)).length ≤ n) :
    read n (tokens (ofKeys d keys) ++ .word ")" :: rest) =
      some (ofKeys d keys, .word ")" :: rest) := by
  have hpos : 0 < keys.length := List.length_pos_iff.2 hkeys
  have hlength := length_ofColumns (Token.ofText (separator d)) keys
  rw [← tokens_ofKeys] at hlength
  have hn : 3 * keys.length ≤ n := hlength.trans hn
  cases d with
  | postgres | mysql =>
    refine read_tokens (by simpa [ofKeys] using hkeys) ?_ ?_ rfl rfl
    · simp only [ofKeys, List.forall_mem_map, List.length_singleton]
      intro c _
      exact ⟨List.cons_ne_nil _ _, by omega⟩
    · simp only [ofKeys, List.length_map]
      omega
  | sqlite =>
    have hatoms : ((keys.map Atom.column).intersperse (.literal "|")).length =
        2 * keys.length - 1 := by
      simp
    refine read_tokens (List.cons_ne_nil _ _) ?_ ?_ rfl rfl
    · simp only [ofKeys, List.forall_mem_singleton]
      exact ⟨List.ne_nil_of_length_pos (by omega), by omega⟩
    · simp only [ofKeys, List.length_singleton]
      omega

theorem readEnclosed_countedKeys (h : 2 ≤ keys.length)
    (hn : (Draft.tokensFrom d 0 (Draft.countedKeys d keys)).length ≤ n) :
    readEnclosed n (Draft.tokensFrom d 0 (Draft.countedKeys d keys) ++ .word ")" :: rest) =
      some (ofKeys d keys, rest) := by
  have hkeys : keys ≠ [] := List.ne_nil_of_length_pos (by omega)
  rw [tokensFrom_countedKeys h] at hn ⊢
  by_cases hd : d = .postgres
  · rw [if_pos hd] at hn
    rw [if_pos hd, List.cons_append, readEnclosed, skipWord_self]
    apply before_of_eq
    apply before_of_eq
    rw [List.append_assoc]
    refine read_ofKeys hkeys ?_
    simp only [List.length_cons, List.length_append] at hn
    omega
  · rw [if_neg hd] at hn
    have hskip : skipWord "(" (tokens (ofKeys d keys) ++ .word ")" :: rest) = none := by
      rw [tokens_ofKeys]
      exact skipWord_ofColumns _ _ hkeys
    rw [if_neg hd, readEnclosed, hskip]
    exact before_of_eq (read_ofKeys hkeys hn)

theorem ofTokens?_opening {ts : List Token} (h : readEnclosed ts.length ts = some (row, rest)) :
    ofTokens? (.word "SELECT" :: .word "COUNT" :: .word "(" :: .word "DISTINCT" :: ts) =
      some row := by
  simp [ofTokens?, h]

/-- What is counted is read from the text as it was meant. -/
theorem ofStatement?_count (d : Dialect) (p : Plan) (h : 2 ≤ p.primaryKey.length) :
    ofStatement? d (Draft.statement d (Draft.count d p)) = some (ofKeys d p.rootKeys) := by
  have hopening : Token.ofText "SELECT COUNT(DISTINCT " =
      [.word "SELECT", .word "COUNT", .word "(", .word "DISTINCT"] := by
    decide
  have hkeys : 2 ≤ p.rootKeys.length := by simpa [Plan.rootKeys] using h
  have hspaced := Draft.isSpaced_count d p
  rw [ofStatement?, Draft.ofStatement?_statement hspaced (Draft.isApart_count d p), Draft.count,
    Draft.tokensFrom_word, Draft.tokensFrom_append, Draft.tokensFrom_word, hopening,
    Token.ofText_closing_as]
  exact ofTokens?_opening (readEnclosed_countedKeys hkeys (by simp))

def HasKinds (keys : List ColumnRef) (kinds : ColumnRef → KeyKind) (key : ColumnRef → KeyValue) :
    Prop := ∀ c ∈ keys, (key c).kind = kinds c

/-- Different keys are counted as different rows. -/
def Separates (row : CountedRow) (keys : List ColumnRef) (kinds : ColumnRef → KeyKind) : Prop :=
  ∀ k k', HasKinds keys kinds k → HasKinds keys kinds k' → keys.map k ≠ keys.map k' →
    row.value k ≠ row.value k'

/-- Records are counted once for each key. -/
def CountsOnce (row : CountedRow) (keys : List ColumnRef) (kinds : ColumnRef → KeyKind) : Prop :=
  ∀ records, (∀ k ∈ records, HasKinds keys kinds k) →
    row.total records = (records.map fun k ↦ keys.map k).eraseDups.length

/-- Of these columns no two hold texts. -/
def OneText (keys : List ColumnRef) (kinds : ColumnRef → KeyKind) : Prop :=
  ∀ c ∈ keys, ∀ c' ∈ keys, kinds c = .text → kinds c' = .text → c = c'

variable {kinds : ColumnRef → KeyKind} {k k' : ColumnRef → KeyValue}

theorem length_eraseDups_map_congr {α β γ : Type} [BEq β] [LawfulBEq β] [BEq γ] [LawfulBEq γ]
    {f : α → β} {g : α → γ} {l : List α} (h : ∀ a ∈ l, ∀ b ∈ l, f a = f b ↔ g a = g b) :
    (l.map f).eraseDups.length = (l.map g).eraseDups.length := by
  have hpairs : ∀ x ∈ l.map (fun a ↦ (f a, g a)), ∀ y ∈ l.map (fun a ↦ (f a, g a)),
      x.1 = y.1 ↔ x.2 = y.2 := by
    simpa only [List.forall_mem_map] using h
  have hfst := eraseDups_map_of_injOn (f := Prod.fst) fun x hx y hy hxy ↦
    Prod.ext hxy ((hpairs x hx y hy).1 hxy)
  have hsnd := eraseDups_map_of_injOn (f := Prod.snd) fun x hx y hy hxy ↦
    Prod.ext ((hpairs x hx y hy).2 hxy) hxy
  rw [List.map_map] at hfst hsnd
  have hf : (l.map f).eraseDups.length = (l.map fun a ↦ (f a, g a)).eraseDups.length :=
    (congrArg List.length hfst).trans (List.length_map _)
  have hg : (l.map g).eraseDups.length = (l.map fun a ↦ (f a, g a)).eraseDups.length :=
    (congrArg List.length hsnd).trans (List.length_map _)
  rw [hf, hg]

/-- Counting is right exactly where different keys are different rows, if what is counted depends on
nothing but the key. -/
theorem countsOnce_iff (hkey : ∀ k k', keys.map k = keys.map k' → row.value k = row.value k') :
    row.CountsOnce keys kinds ↔ row.Separates keys kinds := by
  constructor
  · intro h k k' hk hk' hne heq
    have htotal := h [k, k'] (by simp [hk, hk'])
    simp [total, heq, Ne.symm hne, List.eraseDups_cons] at htotal
  · intro h records hrecords
    apply length_eraseDups_map_congr
    intro k hk k' hk'
    constructor
    · intro heq
      by_contra hne
      exact h k k' (hrecords k hk) (hrecords k' hk') hne heq
    · exact hkey k k'

theorem join_intersperse (s : String) (parts : List String) :
    Text.join "" (parts.intersperse s) = Text.join s parts := by
  rw [Text.join, Text.join, map_intersperse]
  have hjoined := intercalate_intersperse [] s.toList (parts.map String.toList)
  rw [List.nil_append, List.append_nil] at hjoined
  exact congrArg String.ofList hjoined

theorem value_ofKeys (d : Dialect) (h : 2 ≤ keys.length) (k : ColumnRef → KeyValue) :
    value (ofKeys d keys) k =
      if d = .sqlite then [.text (Text.join "|" (keys.map fun c ↦ (k c).shown))]
      else keys.map k := by
  cases d with
  | postgres | mysql =>
    simp only [value, ofKeys, List.map_map, reduceCtorEq, if_false]
    rfl
  | sqlite =>
    match keys, h with
    | c :: c' :: keys, _ =>
      have hshown : ((c :: c' :: keys).map fun c ↦ (k c).shown) =
          ((c :: c' :: keys).map Atom.column).map (Atom.shown k) := by
        simp [Atom.shown]
      rw [if_pos rfl, hshown, ← join_intersperse]
      have hliteral : Atom.shown k (.literal "|") = "|" := rfl
      rw [← hliteral, ← map_intersperse]
      rfl

/-- Blocks of the same lengths that are put together alike are the same. -/
theorem eq_of_flatMap_eq {α β : Type} {f g : α → List β} {l : List α}
    (hlength : ∀ a ∈ l, (f a).length = (g a).length) (h : l.flatMap f = l.flatMap g) :
    ∀ a ∈ l, f a = g a := by
  induction l with
  | nil => simp
  | cons a l ih =>
    obtain ⟨ha, hl⟩ := List.forall_mem_cons.1 hlength
    rw [List.flatMap_cons, List.flatMap_cons] at h
    obtain ⟨hhead, hrest⟩ := List.append_inj h ha
    exact List.forall_mem_cons.2 ⟨hhead, ih hl hrest⟩

theorem length_le_of_flatMap_eq {α β : Type} {f g : α → List β} {l : List α} {a : α} (ha : a ∈ l)
    (hlength : ∀ b ∈ l, b ≠ a → (f b).length = (g b).length) (h : l.flatMap f = l.flatMap g) :
    (f a).length ≤ (g a).length := by
  apply Nat.le_of_not_lt
  intro hlt
  have hle : ∀ b ∈ l, (g b).length ≤ (f b).length := by
    intro b hb
    by_cases hba : b = a
    · exact hba ▸ hlt.le
    · exact (hlength b hb hba).ge
  have hsum := congrArg List.length h
  rw [List.length_flatMap, List.length_flatMap] at hsum
  have hless := List.sum_lt_sum (fun b ↦ (g b).length) (fun b ↦ (f b).length) hle ⟨a, ha, hlt⟩
  exact absurd hsum hless.ne'

/-- If no two columns hold texts, joined keys are separate. -/
theorem map_eq_of_joined (hone : OneText keys kinds) (hk : HasKinds keys kinds k)
    (hk' : HasKinds keys kinds k')
    (h : keys.flatMap (fun c ↦ Text.split '|' (k c).shown) =
      keys.flatMap fun c ↦ Text.split '|' (k' c).shown) :
    keys.map k = keys.map k' := by
  have hinteger (c : ColumnRef) (hc : c ∈ keys) (hkind : kinds c = .integer) :
      (Text.split '|' (k c).shown).length = (Text.split '|' (k' c).shown).length := by
    have hbar := KeyValue.bar_not_mem_shown ((hk c hc).trans hkind)
    have hbar' := KeyValue.bar_not_mem_shown ((hk' c hc).trans hkind)
    rw [Text.split_eq_singleton '|' hbar, Text.split_eq_singleton '|' hbar']
    rfl
  have hlength : ∀ c ∈ keys,
      (Text.split '|' (k c).shown).length = (Text.split '|' (k' c).shown).length := by
    intro c hc
    cases hkind : kinds c with
    | integer => exact hinteger c hc hkind
    | text =>
      have hothers : ∀ c' ∈ keys, c' ≠ c →
          (Text.split '|' (k c').shown).length = (Text.split '|' (k' c').shown).length := by
        intro c' hc' hne
        apply hinteger c' hc'
        cases hkind' : kinds c' with
        | integer => rfl
        | text => exact absurd (hone c' hc' c hc hkind' hkind) hne
      apply Nat.le_antisymm
      · exact length_le_of_flatMap_eq hc hothers h
      · exact length_le_of_flatMap_eq hc (fun c' hc' hne ↦ (hothers c' hc' hne).symm) h.symm
  apply List.map_congr_left
  intro c hc
  have hsplit := eq_of_flatMap_eq hlength h c hc
  apply KeyValue.eq_of_shown_eq ((hk c hc).trans (hk' c hc).symm)
  rw [← Text.join_split '|' (k c).shown, hsplit, Text.join_split]

def zeros (n : Nat) : String := Text.join "|" (List.replicate n "0")

def zeroKey (kinds : ColumnRef → KeyKind) (count : ColumnRef → Nat) (c : ColumnRef) : KeyValue :=
  match kinds c with
  | .text => .text (zeros (count c))
  | .integer => .integer 0

theorem split_zeros {n : Nat} (h : n ≠ 0) : Text.split '|' (zeros n) = List.replicate n "0" :=
  Text.split_join '|' (by simpa using h) fun part hpart ↦ by
    rw [List.eq_of_mem_replicate hpart]
    decide

/-- All that tells such keys apart when they are joined is how many zeros there are. -/
theorem flatMap_zeroKey {count : ColumnRef → Nat} (hpos : ∀ c, count c ≠ 0)
    (hone : ∀ c, kinds c = .integer → count c = 1) (keys : List ColumnRef) :
    keys.flatMap (fun c ↦ Text.split '|' (zeroKey kinds count c).shown) =
      keys.flatMap fun c ↦ List.replicate (count c) "0" := by
  apply List.flatMap_congr
  intro c _
  rw [zeroKey]
  cases hkind : kinds c with
  | text => exact split_zeros (hpos c)
  | integer =>
    rw [hone c hkind]
    decide

theorem flatMap_replicate_more (u : ColumnRef) (n : Nat) (keys : List ColumnRef) :
    (keys.flatMap fun c ↦ List.replicate (if c = u then 1 + n else 1) "0") =
      List.replicate (keys.length + keys.count u * n) "0" := by
  induction keys with
  | nil => simp
  | cons c keys ih =>
    rw [List.flatMap_cons, ih, List.replicate_append_replicate, List.count_cons, List.length_cons]
    congr 1
    by_cases hc : c = u
    · simp only [hc, if_pos, beq_self_eq_true, Nat.succ_mul]
      omega
    · simp only [hc, if_false, beq_iff_eq, Nat.add_zero]
      omega

theorem hasKinds_zeroKey (count : ColumnRef → Nat) : HasKinds keys kinds (zeroKey kinds count) := by
  intro c _
  rw [zeroKey]
  cases kinds c <;> rfl

/-- Of two columns of texts each can have as many zeros more as the other occurs. -/
theorem exists_joined_alike {u v : ColumnRef} (hu : u ∈ keys) (hv : v ∈ keys)
    (htext : kinds u = .text ∧ kinds v = .text) (hne : u ≠ v) :
    ∃ k k', HasKinds keys kinds k ∧ HasKinds keys kinds k' ∧ keys.map k ≠ keys.map k' ∧
      keys.flatMap (fun c ↦ Text.split '|' (k c).shown) =
        keys.flatMap fun c ↦ Text.split '|' (k' c).shown := by
  let more (w : ColumnRef) (n : Nat) (c : ColumnRef) : Nat := if c = w then 1 + n else 1
  have hpos (w : ColumnRef) (n : Nat) (c : ColumnRef) : more w n c ≠ 0 := by
    dsimp only [more]
    split <;> omega
  have hone {w : ColumnRef} (hw : kinds w = .text) (n : Nat) (c : ColumnRef)
      (hc : kinds c = .integer) : more w n c = 1 := by
    apply if_neg
    rintro rfl
    simp [hw] at hc
  refine ⟨zeroKey kinds (more u (keys.count v)), zeroKey kinds (more v (keys.count u)),
    hasKinds_zeroKey _, hasKinds_zeroKey _, ?_, ?_⟩
  · intro heq
    have hzeros := List.map_inj_left.1 heq u hu
    simp only [zeroKey, htext.1, more, if_pos, if_neg hne, KeyValue.text.injEq] at hzeros
    have hsplit := congrArg (Text.split '|') hzeros
    rw [split_zeros (by omega), split_zeros Nat.one_ne_zero] at hsplit
    have hlength := congrArg List.length hsplit
    have hcount : 0 < keys.count v := List.count_pos_iff.2 hv
    simp only [List.length_replicate] at hlength
    omega
  · rw [flatMap_zeroKey (hpos _ _) (hone htext.1 _), flatMap_zeroKey (hpos _ _) (hone htext.2 _),
      flatMap_replicate_more, flatMap_replicate_more, Nat.mul_comm]

theorem separates_ofKeys_iff (h : 2 ≤ keys.length) :
    Separates (ofKeys d keys) keys kinds ↔ (d = .sqlite → OneText keys kinds) := by
  have hjoin (k : ColumnRef → KeyValue) : (keys.map fun c ↦ (k c).shown) ≠ [] :=
    List.ne_nil_of_length_pos (by rw [List.length_map]; omega)
  have hjoined (k k' : ColumnRef → KeyValue) :
      value (ofKeys .sqlite keys) k = value (ofKeys .sqlite keys) k' ↔
        keys.flatMap (fun c ↦ Text.split '|' (k c).shown) =
          keys.flatMap fun c ↦ Text.split '|' (k' c).shown := by
    rw [value_ofKeys .sqlite h, value_ofKeys .sqlite h, if_pos rfl, if_pos rfl, List.cons.injEq,
      KeyValue.text.injEq, eq_self, and_true]
    have hiff := Text.join_eq_join_iff '|' (hjoin k) (hjoin k')
    rwa [List.flatMap_map, List.flatMap_map] at hiff
  by_cases hd : d = .sqlite
  · subst hd
    constructor
    · rintro hseparates -
      intro u hu v hv htext htext'
      by_contra hne
      obtain ⟨k, k', hk, hk', hdiffer, halike⟩ := exists_joined_alike hu hv ⟨htext, htext'⟩ hne
      exact hseparates k k' hk hk' hdiffer ((hjoined k k').2 halike)
    · intro hone k k' hk hk' hdiffer heq
      exact hdiffer (map_eq_of_joined (hone rfl) hk hk' ((hjoined k k').1 heq))
  · refine iff_of_true ?_ fun hsqlite ↦ absurd hsqlite hd
    intro k k' _ _ hdiffer
    rw [value_ofKeys d h, value_ofKeys d h, if_neg hd, if_neg hd]
    exact hdiffer

end CountedRow

namespace Plan

open CountedRow

variable {p : Plan} {d : Dialect} {st : Statement}

/-- A count tells the records of a composite key apart, and so counts each of them once, unless it
joins the texts of two columns. -/
theorem separates_iff_of_countStatement (hkeys : 2 ≤ p.primaryKey.length)
    (h : p.countStatement d = .ok st) :
    ∃ row, CountedRow.ofStatement? d st = some row ∧ ∀ kinds,
      (row.Separates p.rootKeys kinds ↔ (d = .sqlite → OneText p.rootKeys kinds)) ∧
      (row.CountsOnce p.rootKeys kinds ↔ (d = .sqlite → OneText p.rootKeys kinds)) := by
  obtain ⟨-, rfl⟩ := Draft.statement?_eq_ok.1 h
  have hlength : 2 ≤ p.rootKeys.length := by simpa [rootKeys] using hkeys
  refine ⟨_, ofStatement?_count d p hkeys, fun kinds ↦ ⟨separates_ofKeys_iff hlength, ?_⟩⟩
  rw [countsOnce_iff, separates_ofKeys_iff hlength]
  intro k k' heq
  have hshown : (p.rootKeys.map fun c ↦ (k c).shown) = p.rootKeys.map fun c ↦ (k' c).shown := by
    simpa using congrArg (List.map KeyValue.shown) heq
  rw [value_ofKeys d hlength, value_ofKeys d hlength, hshown, heq]

def numberedGroups (c : ColumnRef) : KeyKind := if c.column = "groupId" then .integer else .text

theorem separates_iff_of_countStatement_memberships :
    ∃ p st row, compile groups "Membership" {} = .ok p ∧ 2 ≤ p.primaryKey.length ∧
      p.countStatement .sqlite = .ok st ∧ CountedRow.ofStatement? .sqlite st = some row ∧
      row.Separates p.rootKeys numberedGroups ∧ row.CountsOnce p.rootKeys numberedGroups := by
  have hplan : (compile groups "Membership" {}).toOption.map (fun p ↦
      (p.primaryKey, p.rootName, (p.countStatement .sqlite).toOption.isSome)) =
      some (["groupId", "personId"], "membership", true) := by
    decide +kernel
  obtain ⟨p, hp, hv⟩ := exists_ok_of_map hplan
  obtain ⟨hkey, hname, hst⟩ : p.primaryKey = ["groupId", "personId"] ∧ p.rootName = "membership" ∧
      (p.countStatement .sqlite).toOption.isSome := by
    simpa using hv
  have hkeys : 2 ≤ p.primaryKey.length := by simp [hkey]
  obtain ⟨st, hst⟩ : ∃ st, p.countStatement .sqlite = .ok st := by
    cases h : p.countStatement .sqlite with
    | error => simp [h, Except.toOption] at hst
    | ok st => exact ⟨st, rfl⟩
  have hone : OneText p.rootKeys numberedGroups := by
    rw [rootKeys, hkey, hname, OneText]
    decide
  obtain ⟨row, hrow, hiff⟩ := separates_iff_of_countStatement hkeys hst
  obtain ⟨hseparates, honce⟩ := hiff numberedGroups
  exact ⟨p, st, row, hp, hkeys, hst, hrow, hseparates.2 fun _ ↦ hone, honce.2 fun _ ↦ hone⟩

/-- What the count of a plan makes of the keys of some records, and how many it counts. -/
def countedOf (p : Plan) (d : Dialect) (records : List (ColumnRef → KeyValue)) :
    Option (List (List KeyValue) × Nat) := do
  let st ← (p.countStatement d).toOption
  let row ← CountedRow.ofStatement? d st
  some (records.map row.value, row.total records)

theorem countedOf_eq (h : p.countStatement d = .ok st) (hkeys : 2 ≤ p.primaryKey.length)
    (records : List (ColumnRef → KeyValue)) :
    p.countedOf d records = some (records.map (ofKeys d p.rootKeys).value,
      (ofKeys d p.rootKeys).total records) := by
  have hrow : CountedRow.ofStatement? d st = some (ofKeys d p.rootKeys) := by
    obtain ⟨-, rfl⟩ := Draft.statement?_eq_ok.1 h
    exact ofStatement?_count d p hkeys
  rw [countedOf, h]
  show (CountedRow.ofStatement? d st >>= fun row ↦
    some (records.map row.value, row.total records)) = _
  rw [hrow]
  rfl

def barredKeys : List (ColumnRef → KeyValue) :=
  [("a|", "b"), ("a", "|b")].map fun texts c ↦
    .text (if c.column = "groupId" then texts.1 else texts.2)

/-- They are one record to the count that joins texts, and two records to the others. -/
theorem countedOf_barredKeys : ∃ p, compile groups "Membership" {} = .ok p ∧
    2 ≤ p.primaryKey.length ∧ (barredKeys.map fun k ↦ p.rootKeys.map k).Nodup ∧
    p.countedOf .sqlite barredKeys = some ([[.text "a||b"], [.text "a||b"]], 1) ∧
    ∀ d ∈ [Dialect.postgres, .mysql], p.countedOf d barredKeys =
      some ([[.text "a|", .text "b"], [.text "a", .text "|b"]], 2) := by
  have hplan : (compile groups "Membership" {}).toOption.map (fun p ↦ (p.primaryKey, p.rootName)) =
      some (["groupId", "personId"], "membership") := by
    decide +kernel
  obtain ⟨p, hp, hv⟩ := exists_ok_of_map hplan
  obtain ⟨hkey, hname⟩ := Prod.mk.inj hv
  have hkeys : 2 ≤ p.primaryKey.length := by simp [hkey]
  have hroot : p.rootKeys = [⟨"membership", "groupId"⟩, ⟨"membership", "personId"⟩] := by
    simp [rootKeys, hkey, hname]
  have hcounted : ∀ d, p.countedOf d barredKeys =
      some (barredKeys.map (ofKeys d p.rootKeys).value,
        (ofKeys d p.rootKeys).total barredKeys) := by
    intro d
    obtain ⟨root, t, -, hc⟩ := compile_ok hp
    exact countedOf_eq (hc.isBound.countStatement d) hkeys barredKeys
  refine ⟨p, hp, hkeys, ?_, ?_, ?_⟩
  · rw [hroot]
    decide
  · rw [hcounted, hroot]
    decide
  · rintro d hd
    rw [hcounted, hroot]
    revert d
    decide

end Plan

end Listing
