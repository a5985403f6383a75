import Listing.Proofs.Bindings
import Listing.Proofs.References

namespace Listing

namespace Like

inductive Sign
  | many
  | one
  | exactly (c : Char)
  deriving DecidableEq, Repr

def isPlain (c : Char) : Bool := c ∉ ['%', '_', '\\']

def sign (c : Char) : Sign :=
  if c = '%' then .many else if c = '_' then .one else .exactly c

/-- The signs of a pattern. A backslash at the end, with nothing to escape, is an error. -/
def signs? : List Char → Option (List Sign)
  | [] => some []
  | ['\\'] => none
  | '\\' :: c :: cs => (signs? cs).map (.exactly c :: ·)
  | c :: cs => (signs? cs).map (sign c :: ·)

def fits : List Sign → List Char → Bool
  | [], cs => cs.isEmpty
  | .many :: ts, cs => cs.tails.any (fits ts)
  | .one :: ts, _ :: cs => fits ts cs
  | .exactly c :: ts, d :: cs => c == d && fits ts cs
  | _ :: _, [] => false

def matches? (pattern text : String) : Option Bool :=
  (signs? pattern.toList).map (fits · text.toList)

/-- Some characters that signs fit. -/
def sample : List Sign → List Char
  | [] => []
  | .many :: ts => sample ts
  | .one :: ts => 'x' :: sample ts
  | .exactly c :: ts => c :: sample ts

variable {v cs rest : List Char} {c : Char} {ts : List Sign}

theorem fits_many : fits (.many :: ts) cs ↔ ∃ rest, rest <:+ cs ∧ fits ts rest := by
  simp [fits]

@[simp] theorem fits_exactly :
    fits (.exactly c :: ts) cs ↔ ∃ rest, cs = c :: rest ∧ fits ts rest := by
  cases cs with
  | nil => simp [fits]
  | cons d cs => simp [fits, @eq_comm _ d]

theorem fits_sample (ts : List Sign) : fits ts (sample ts) := by
  induction ts with
  | nil => rfl
  | cons t ts ih =>
    cases t with
    | many => exact fits_many.2 ⟨_, List.suffix_rfl, ih⟩
    | one | exactly c => simpa [fits, sample] using ih

theorem fits_map_exactly :
    fits (v.map .exactly ++ ts) cs ↔ ∃ rest, cs = v ++ rest ∧ fits ts rest := by
  induction v generalizing cs with
  | nil => simp
  | cons c v ih => simp [ih]

/-- Between two percent signs, characters that stand for themselves are looked for anywhere. -/
theorem fits_between : fits (.many :: (v.map .exactly ++ [.many])) cs ↔ v <:+: cs := by
  have hall (rest : List Char) : fits [.many] rest := fits_many.2 ⟨[], List.nil_suffix, rfl⟩
  simp only [fits_many, fits_map_exactly, hall, and_true, List.infix_iff_prefix_suffix]
  constructor
  · rintro ⟨_, hsuffix, after, rfl⟩
    exact ⟨_, List.prefix_append v after, hsuffix⟩
  · rintro ⟨_, ⟨after, rfl⟩, hsuffix⟩
    exact ⟨_, hsuffix, after, rfl⟩

theorem fits_many_cons (h : fits ts cs) : fits (.many :: ts) (c :: cs) :=
  fits_many.2 ⟨cs, List.suffix_cons c cs, h⟩

theorem fits_map_sign (h : fits ts rest) : fits (v.map sign ++ ts) (v ++ rest) := by
  induction v with
  | nil => exact h
  | cons c v ih =>
    rw [List.map_cons, List.cons_append, List.cons_append, sign]
    split_ifs
    · exact fits_many_cons ih
    · simpa [fits] using ih
    · exact fits_exactly.2 ⟨_, rfl, ih⟩

theorem sign_eq_exactly (h : isPlain c) : sign c = .exactly c := by
  simp only [isPlain, List.mem_cons, not_or, decide_eq_true_eq] at h
  rw [sign, if_neg h.1, if_neg h.2.1]

theorem signs?_append (h : '\\' ∉ v) (cs : List Char) :
    signs? (v ++ cs) = (signs? cs).map (v.map sign ++ ·) := by
  induction v with
  | nil => simp
  | cons c v ih =>
    simp only [List.mem_cons, not_or] at h
    rw [List.cons_append, signs?, ih h.2, Option.map_map]
    · rfl
    · rintro rfl
      exact absurd rfl h.1
    · rintro d ds rfl
      exact absurd rfl h.1

/-- A text before a percent sign always has signs, and they fit a text that is no longer and differs
from it unless it is plain. -/
theorem exists_signs (v : List Char) : ∃ ts, signs? (v ++ ['%']) = some ts ∧
    (sample ts).length ≤ v.length ∧ (sample ts = v → ∀ c ∈ v, isPlain c) := by
  fun_induction signs? v with
  | case1 => exact ⟨[.many], rfl, by simp [sample], by simp⟩
  | case2 => exact ⟨[.exactly '%'], rfl, by simp [sample], by simp [sample]⟩
  | case3 c cs ih =>
    obtain ⟨ts, hts, hlength, -⟩ := ih
    refine ⟨.exactly c :: ts, by simp [signs?, hts], by simp [sample]; omega, fun heq ↦ ?_⟩
    have := congrArg List.length heq
    simp only [sample, List.length_cons] at this
    omega
  | case4 c cs hlast hescape ih =>
    obtain ⟨ts, hts, hlength, hplain⟩ := ih
    have hc : c ≠ '\\' := by
      rintro rfl
      cases cs with
      | nil => exact hlast rfl rfl
      | cons d ds => exact hescape d ds rfl rfl
    refine ⟨sign c :: ts, ?_, ?_⟩
    · rw [List.cons_append, ← List.singleton_append, signs?_append (by simpa using hc.symm), hts]
      rfl
    · rw [sign]
      split_ifs with hmany hone
      · -- the sign takes up no character, so the sample is too short to be the text
        refine ⟨hlength.trans (Nat.le_succ _), fun heq ↦ ?_⟩
        have := congrArg List.length heq
        simp only [sample, List.length_cons] at this
        omega
      · simp [sample, hlength, hone]
      · simp only [sample, List.length_cons, List.cons.injEq, true_and, List.forall_mem_cons]
        exact ⟨by omega, fun heq ↦ ⟨by simp [isPlain, hc, hmany, hone], hplain heq⟩⟩

theorem matches?_around {v : String} (h : signs? (v.toList ++ ['%']) = some ts) (text : String) :
    matches? ("%" ++ v ++ "%") text = some (fits (.many :: ts) text.toList) := by
  have hsigns : signs? ("%" ++ v ++ "%").toList = some (.many :: ts) := by
    simp [signs?, h, sign]
  rw [matches?, hsigns, Option.map_some]

theorem signs?_of_not_mem (h : '\\' ∉ v) : signs? (v ++ ['%']) = some (v.map sign ++ [.many]) := by
  rw [signs?_append h]
  rfl

theorem matches?_of_infix {v text : String} (hv : '\\' ∉ v.toList)
    (h : v.toList <:+: text.toList) : matches? ("%" ++ v ++ "%") text = some true := by
  obtain ⟨before, after, htext⟩ := h
  have hafter : fits [.many] after := fits_many.2 ⟨[], List.nil_suffix, rfl⟩
  rw [matches?_around (signs?_of_not_mem hv), Option.some.injEq]
  exact fits_many.2 ⟨v.toList ++ after, ⟨before, by simpa using htext⟩, fits_map_sign hafter⟩

theorem matches?_iff_of_isPlain {v : String} (h : ∀ c ∈ v.toList, isPlain c) (text : String) :
    matches? ("%" ++ v ++ "%") text = some true ↔ v.toList <:+: text.toList := by
  have hescape : '\\' ∉ v.toList := fun hmem ↦ absurd (h _ hmem) (by decide)
  have hmap : v.toList.map sign = v.toList.map .exactly :=
    List.map_congr_left fun c hc ↦ sign_eq_exactly (h c hc)
  rw [matches?_around (signs?_of_not_mem hescape), hmap, Option.some.injEq, fits_between]

/-- The sample of the pattern is matched, and it has no room for more than the text itself. -/
theorem isPlain_of_matches?_iff {v : String}
    (h : ∀ text, matches? ("%" ++ v ++ "%") text = some true ↔ v.toList <:+: text.toList) :
    ∀ c ∈ v.toList, isPlain c := by
  obtain ⟨ts, hts, hlength, hplain⟩ := exists_signs v.toList
  have hmatch : matches? ("%" ++ v ++ "%") (String.ofList (sample ts)) = some true := by
    rw [matches?_around hts, String.toList_ofList,
      fits_many.2 ⟨_, List.suffix_rfl, fits_sample ts⟩]
  have hin := (h _).1 hmatch
  rw [String.toList_ofList] at hin
  exact hplain (hin.eq_of_length_le hlength).symm

/-- What a pattern for a text does. It is never an error, it misses no text that holds the wanted
one unless that has a backslash, and it matches just these texts if and only if the wanted one holds
no character with a meaning of its own. -/
structure Seeks (pattern v : String) : Prop where
  isSome : ∀ text, (matches? pattern text).isSome
  finds : '\\' ∉ v.toList → ∀ text, v.toList <:+: text.toList → matches? pattern text = some true
  literal : (∀ text, matches? pattern text = some true ↔ v.toList <:+: text.toList) ↔
    ∀ c ∈ v.toList, isPlain c

theorem seeks_around (v : String) : Seeks ("%" ++ v ++ "%") v where
  isSome text := by
    obtain ⟨ts, hts, -⟩ := exists_signs v.toList
    rw [matches?_around hts, Option.isSome_some]
  finds hv _ := matches?_of_infix hv
  literal := ⟨isPlain_of_matches?_iff, matches?_iff_of_isPlain⟩

/-- Whether a pattern for a text is bound to a parameter. -/
def Binds (b : Bindings) (e : String × String) : Prop :=
  ∃ pattern, b.get? e.1 = some (.text pattern) ∧ Seeks pattern e.2

theorem binds_of_mem {b : Bindings} {n v : String} (hb : b.keys.Nodup)
    (h : (n, FilterValue.text ("%" ++ v ++ "%")) ∈ b) : Binds b (n, v) :=
  ⟨_, Keyed.get?_of_mem hb h, seeks_around v⟩

end Like

namespace FilterCondition

/-- The text that a filter looks for. -/
def seeks? (f : FilterCondition) : Option String :=
  match f.operator with
  | .like | .ilike => some (f.value.text?.getD "")
  | _ => none

theorem compile_seeks {f : FilterCondition} {v : String} (h : f.seeks? = some v) (index : Nat)
    (c : ColumnRef) : ∃ q, f.compile index c =
      some (q, [(parameter index, .text ("%" ++ v ++ "%"))]) := by
  rw [seeks?] at h
  cases hop : f.operator <;> simp only [hop, Option.some.injEq, reduceCtorEq] at h
  all_goals
    subst h
    simp [compile, hop, FilterValue.containing]

theorem compile_entries (f : FilterCondition) (index : Nat) (c c' : ColumnRef) :
    (f.compile index c).map (·.2) = (f.compile index c').map (·.2) := by
  cases hop : f.operator <;> simp [compile, hop, Function.comp_def]

end FilterCondition

namespace Conditions

open FilterCondition

def sought (fs : List FilterCondition) : List (String × String) :=
  fs.zipIdx.filterMap fun (f, k) ↦ f.seeks?.map (parameter k, ·)

def soughtIn (term : Option String) (fields : List String) : List (String × String) :=
  (term.bind Text.nonBlank?).toList.flatMap fun v ↦
    (List.range fields.length).map (searchParameter ·, v)

variable {fs : List FilterCondition} {t : AliasTable}

theorem compiled_entries_eq (t t' : AliasTable) (index : Nat) (fs : List FilterCondition) :
    (compiled t index fs).flatMap (·.2) = (compiled t' index fs).flatMap (·.2) := by
  simp only [compiled, List.flatMap_def, List.map_filterMap]
  congr 1
  exact List.filterMap_congr fun x _ ↦ x.1.compile_entries x.2 _ _

theorem compileFrom_bindings (t : AliasTable) (index : Nat) (bound : Bindings)
    (fs : List FilterCondition) : (compileFrom t index bound fs).1.bindings =
      bound.putAll ((compiled t index fs).flatMap (·.2)) := by
  induction fs generalizing t index bound with
  | nil => rfl
  | cons f fs ih =>
    have hrest (t' : AliasTable) := compiled_entries_eq t' t (index + 1) fs
    have hf : (t.column ⟨f.relation, f.field⟩).1 = t.ref f.target := rfl
    rw [compileFrom, compiled_cons, ← hf]
    cases hc : f.compile index (t.column ⟨f.relation, f.field⟩).1 with
    | none => simp [hc, ih, hrest]
    | some c => simp [hc, ih, hrest, Keyed.putAll]

theorem ofFilters_bindings (fs : List FilterCondition) (t : AliasTable) :
    (ofFilters fs t).1.bindings = (compiled t 0 fs).flatMap (·.2) := by
  rw [ofFilters, compileFrom_bindings]
  exact Keyed.ofEntries_eq_self (compiled_keys t 0 fs).2

theorem mem_compiled_entries {e : String × String} (he : e ∈ sought fs) :
    (e.1, FilterValue.text ("%" ++ e.2 ++ "%")) ∈ (compiled t 0 fs).flatMap (·.2) := by
  obtain ⟨⟨f, k⟩, hf, h⟩ := List.mem_filterMap.1 he
  obtain ⟨v, hv, rfl⟩ := Option.map_eq_some_iff.1 h
  obtain ⟨q, hq⟩ := compile_seeks hv k (t.ref f.target)
  exact List.mem_flatMap.2 ⟨_, List.mem_filterMap.2 ⟨_, hf, hq⟩, by simp⟩

theorem mem_searching_bindings {term : Option String} {fields : List String} {e : String × String}
    (he : e ∈ soughtIn term fields) : ∃ v, term.bind Text.nonBlank? = some v ∧ fields ≠ [] ∧
      ∀ columns : List ColumnRef, columns.length = fields.length →
        (e.1, FilterValue.text ("%" ++ e.2 ++ "%")) ∈ (searching v columns).bindings := by
  obtain ⟨v, hv, h⟩ := List.mem_flatMap.1 he
  obtain ⟨i, hi, rfl⟩ := List.mem_map.1 h
  refine ⟨v, Option.mem_toList.1 hv, ?_, fun columns hcolumns ↦ ?_⟩
  · rintro rfl
    simp at hi
  · rw [searching_bindings, hcolumns]
    exact List.mem_map_of_mem hi

theorem length_columns (t : AliasTable) (fs : List Field) :
    (t.columns fs).1.length = fs.length := by
  induction fs generalizing t with
  | nil => rfl
  | cons f fs ih => simp [AliasTable.columns, ih]

theorem ofSearch_eq (term : Option String) (fields : List String) (t : AliasTable) :
    (ofSearch term fields t).1 = (term.bind Text.nonBlank?).bind fun v ↦
      if fields = [] then none else some (searching v (t.columns (fields.map Field.ofText)).1) := by
  cases hterm : term.bind Text.nonBlank? with
  | none => simp [ofSearch, hterm]
  | some v => cases fields <;> simp [ofSearch, hterm, searching]

/-- Every filter for a text and every field of a search has a pattern for its text, whatever aliases
there are. -/
theorem binds_patterns (fs : List FilterCondition) (term : Option String) (fields : List String)
    (t : AliasTable) :
    (∀ e ∈ sought fs, Like.Binds (ofFilters fs t).1.bindings e) ∧
    ∀ e ∈ soughtIn term fields, ∃ c, (ofSearch term fields t).1 = some c ∧
      Like.Binds c.bindings e := by
  refine ⟨fun e he ↦ ?_, fun e he ↦ ?_⟩
  · rw [ofFilters_bindings]
    exact Like.binds_of_mem (compiled_keys t 0 fs).2 (mem_compiled_entries he)
  · obtain ⟨v, hv, hfields, hmem⟩ := mem_searching_bindings he
    refine ⟨searching v (t.columns (fields.map Field.ofText)).1, ?_, ?_⟩
    · rw [ofSearch_eq, hv, Option.bind_some, if_neg hfields]
    · exact Like.binds_of_mem (Keyed.nodup_keys_ofEntries _) (hmem _ (by simp [length_columns]))

end Conditions

namespace Plan

open Conditions

variable {s : Schema} {name : String} {o : QueryOptions} {p : Plan}

theorem binds_patterns_of_compile (h : compile s name o = .ok p) :
    ∀ e ∈ sought o.filters ++ soughtIn o.search o.searchFields, Like.Binds p.bindings e := by
  obtain ⟨root, t, -, hc⟩ := compile_ok h
  intro e he
  refine Like.binds_of_mem hc.keys_nodup ?_
  rw [hc.bindings_eq]
  rcases List.mem_append.1 he with he | he
  · exact List.mem_append_left _ (mem_compiled_entries he)
  · obtain ⟨v, hv, hfields, hmem⟩ := mem_searching_bindings he
    refine List.mem_append_right _ ?_
    rw [QueryOptions.searched, hv, Option.bind_some, if_neg hfields]
    exact hmem _ (by simp)

def byMarkedRole : QueryOptions :=
  { search := some " dev\\ops ", searchFields := ["role"]
    filters := [⟨"role", .like, .text "on_call", none⟩] }

theorem patterns_of_byMarkedRole : ∃ p, compile payments "Employee" byMarkedRole = .ok p ∧
    p.bindings.map (fun b ↦ (b.1, b.2.text?)) =
      [("filter_0", some "%on_call%"), ("search_0", some "%dev\\ops%")] ∧
    Like.matches? "%on_call%" "on-call" = some true ∧
    ¬ "on_call".toList <:+: "on-call".toList ∧
    Like.matches? "%dev\\ops%" "dev\\ops" = some false := by
  have hplan : (compile payments "Employee" byMarkedRole).toOption.map
      (fun p ↦ p.bindings.map fun b ↦ (b.1, b.2.text?)) =
      some [("filter_0", some "%on_call%"), ("search_0", some "%dev\\ops%")] := by
    decide +kernel
  obtain ⟨p, hp, hbindings⟩ := exists_ok_of_map hplan
  exact ⟨p, hp, hbindings, by decide +kernel, by decide +kernel, by decide +kernel⟩

end Plan

end Listing
