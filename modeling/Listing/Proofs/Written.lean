import Listing.Proofs.Scopes
import Listing.Proofs.Spacing

namespace Listing

namespace Dialect

variable {d : Dialect} {i j m : Nat}

def column (d : Dialect) (c : ColumnRef) : String := d.quote c.table ++ "." ++ d.quote c.column

def placeholders (d : Dialect) (first count : Nat) : String :=
  Text.join ", " ((List.range' first count).map d.placeholder)

theorem placeholders_zero : d.placeholders i 0 = "" := rfl

theorem placeholders_one : d.placeholders i 1 = d.placeholder i := by
  simp [placeholders, Text.join]

theorem placeholders_add_two :
    d.placeholders i (m + 2) = d.placeholder i ++ ", " ++ d.placeholders (i + 1) (m + 1) := by
  apply String.toList_injective
  simp [placeholders, Text.join, List.range'_succ, List.intercalate]

theorem mem_placeholder {c : Char} (h : c ∈ (d.placeholder i).toList) :
    c = d.sign ∨ c.isDigit := by
  rw [placeholder_toList, List.mem_cons] at h
  exact h.imp_right isDigit_of_mem_digits

theorem mem_placeholders {c : Char} (h : c ∈ (d.placeholders i m).toList) :
    c = d.sign ∨ c.isDigit ∨ c = ',' ∨ c = ' ' := by
  induction m generalizing i with
  | zero => simp [placeholders_zero] at h
  | succ m ih =>
    cases m with
    | zero =>
      rw [placeholders_one] at h
      exact (mem_placeholder h).imp_right .inl
    | succ m =>
      rw [placeholders_add_two, String.toList_append, String.toList_append, List.mem_append,
        List.mem_append] at h
      rcases h with (h | h) | h
      · exact (mem_placeholder h).imp_right .inl
      · exact .inr (.inr (by simpa using h))
      · exact ih h

theorem eq_one_of_placeholders_eq (h : d.placeholders i m = d.placeholder j) : m = 1 := by
  match m with
  | 0 =>
    have hnil := congrArg String.toList h
    simp [placeholders_zero, placeholder_toList] at hnil
  | 1 => rfl
  | m + 2 =>
    have hcomma : ',' ∈ (d.placeholder j).toList := by
      rw [← h, placeholders_add_two]
      simp
    rcases mem_placeholder hcomma with hsign | hdigit
    · cases d <;> simp [sign] at hsign
    · simp at hdigit

theorem exists_placeholders_eq : (∃ j, d.placeholders i m = d.placeholder j) ↔ m = 1 := by
  constructor
  · rintro ⟨j, h⟩
    exact eq_one_of_placeholders_eq h
  · rintro rfl
    exact ⟨i, placeholders_one⟩

end Dialect

namespace Draft

variable {d : Dialect} {b : Bindings} {n : String} {v : FilterValue} {bound : Nat}

def written (d : Dialect) (bound : Nat) (draft : Draft) : String :=
  String.ofList (textFrom d bound draft)

theorem written_append (x y : Draft) : written d bound (x ++ y) =
    written d bound x ++ written d (bound + (values x).length) y := by
  rw [written, textFrom_append, String.ofList_append]
  rfl

@[simp] theorem written_nil : written d bound [] = "" := rfl

@[simp] theorem written_word (text : String) (ps : Draft) :
    written d bound (.word text :: ps) = text ++ written d bound ps := by
  rw [written, textFrom, String.ofList_append, String.ofList_toList]
  rfl

@[simp] theorem values_word (text : String) (ps : Draft) :
    values (.word text :: ps) = values ps := rfl

@[simp] theorem values_column (c : ColumnRef) : values (column c) = [] := rfl

@[simp] theorem written_column (c : ColumnRef) : written d bound (column c) = d.column c := by
  apply String.toList_injective
  simp [written, column, textFrom, Dialect.column, Dialect.quote]

theorem written_values (bound : Nat) (vs : List FilterValue) :
    written d bound (separated ", " (vs.map fun w ↦ [.value w])) =
      d.placeholders (bound + 1) vs.length := by
  induction vs generalizing bound with
  | nil => rfl
  | cons v vs ih =>
    cases vs with
    | nil => simp [written, textFrom, Dialect.placeholders_one]
    | cons w vs =>
      have hrest := ih (bound + 1)
      rw [List.map_cons] at hrest
      rw [List.map_cons, List.map_cons, separated_cons_cons, List.length_cons, List.length_cons,
        Dialect.placeholders_add_two, written_append, written_word]
      have hvalue : values [.value v] = [v] := rfl
      rw [hvalue, List.length_singleton, hrest, List.length_cons, ← String.append_assoc]
      simp [written, textFrom]

theorem written_param (h : b.get? n = some v) :
    written d bound (param b n) = d.placeholders (bound + 1) v.expanded.length := by
  rw [param_eq h, written_values]

variable {draft part : Draft} {text : String}

/-- A text that a draft has in the place of a part. -/
def Writes (d : Dialect) (draft part : Draft) (text : String) : Prop :=
  ∃ before after, before ++ part ++ after = draft ∧ text = written d (values before).length part

theorem Writes.sql_eq (h : Writes d draft part text) :
    ∃ before after, (statement d draft).sql = before ++ text ++ after := by
  obtain ⟨before, after, rfl, rfl⟩ := h
  refine ⟨written d 0 before, written d (values (before ++ part)).length after, ?_⟩
  have hsql : (statement d (before ++ part ++ after)).sql = written d 0 (before ++ part ++ after) :=
    rfl
  rw [hsql, written_append, written_append, Nat.zero_add, Nat.zero_add]

theorem infix_separated {separator : String} {a : Draft} {drafts : List Draft} (h : a ∈ drafts) :
    a <:+: separated separator drafts := by
  induction drafts with
  | nil => simp at h
  | cons b drafts ih =>
    cases drafts with
    | nil =>
      obtain rfl := List.mem_singleton.1 h
      rw [separated_singleton]
    | cons c drafts =>
      rw [separated_cons_cons]
      rcases List.mem_cons.1 h with rfl | h
      · exact (List.prefix_append a _).isInfix
      · exact (ih h).trans ((List.suffix_cons _ _).trans (List.suffix_append b _)).isInfix

theorem infix_select (p : Plan) : conjunction p <:+: select p := by
  have hscope : conjunction p <:+: scope p (rowScope p) := by
    rw [scope]
    exact ⟨_, _, rfl⟩
  have hselect : scope p (rowScope p) <+: select p := by
    rw [select_eq, pageScopes]
    split
    · rw [List.flatMap_cons, List.append_assoc]
      exact List.prefix_append _ _
    · rw [List.flatMap_singleton]
      exact List.prefix_append _ _
  exact hscope.trans hselect.isInfix

theorem infix_count (d : Dialect) (p : Plan) : conjunction p <:+: count d p := by
  rw [count_eq, scope]
  exact ⟨_, _, rfl⟩

end Draft

end Listing
