import Listing.Proofs.CommaLists
import Listing.Proofs.DateText
import Listing.Proofs.Erasure
import Listing.Proofs.Integers
import Listing.Proofs.Scalars
import Listing.Proofs.Text

namespace Listing

open Number

namespace Wire

/-- Both are refused, or both are written in the same way. -/
def EncodesAlike (t : ColumnType) (v w : FilterValue) : Prop :=
  (encode t v).toOption = (encode t w).toOption

theorem EncodesAlike.refl {t : ColumnType} (v : FilterValue) : EncodesAlike t v v := rfl

def charByte (c : Char) : UInt8 := UInt8.ofNat c.toNat

variable {t : ColumnType} {f : IntegerFormat} {i : Int}

theorem toNat_charByte {c : Char} (h : isDigit c) : (charByte c).toNat = digitValue c + 48 := by
  obtain ⟨hlow, hhigh⟩ := digit_range h
  have hzero : '0'.toNat = 48 := rfl
  rw [charByte, UInt8.toNat_ofNat', digitValue, hzero]
  omega

theorem digitsValueFrom_lt {n m : Nat} {cs : List Char} (hcs : ∀ c ∈ cs, isDigit c) (h : n < m) :
    digitsValueFrom n cs < (cs.map charByte).foldl (fun n b ↦ 256 * n + b.toNat) m := by
  induction cs generalizing n m with
  | nil => exact h
  | cons c cs ih =>
    obtain ⟨hc, hrest⟩ := List.forall_mem_cons.1 hcs
    have hbyte := toNat_charByte hc
    have hnext : 10 * n + digitValue c < 256 * m + (charByte c).toNat := by omega
    exact ih hrest hnext

theorem digitsValue_lt_toNat {cs : List Char} (hcs : ∀ c ∈ cs, isDigit c) (hne : cs ≠ []) :
    digitsValue cs < toNat (cs.map charByte) := by
  cases cs with
  | nil => exact absurd rfl hne
  | cons c cs =>
    obtain ⟨hc, hrest⟩ := List.forall_mem_cons.1 hcs
    have hbyte := toNat_charByte hc
    have hnext : 10 * 0 + digitValue c < 256 * 0 + (charByte c).toNat := by omega
    have hlt := digitsValueFrom_lt hrest hnext
    exact hlt

theorem utf8_toString (h : 0 ≤ i) :
    Text.utf8 (toString i) = (Nat.toDigits 10 i.natAbs).map charByte := by
  have htext : (toString i).toList = Nat.toDigits 10 i.natAbs := by
    rw [toList_toString, if_neg (by omega)]
  have hascii : ∀ c ∈ (toString i).toList, c.toNat ≤ 127 := by
    intro c hc
    have hrange := digit_range (isDigit_of_mem_toDigits (htext ▸ hc))
    omega
  rw [Text.utf8_of_ascii hascii, htext]
  rfl

theorem encode_text_signed (h : t.integer? = some f) (ht : t ≠ .oid) (i : Int) :
    (encode t (.text (toString i))).toOption = (f.encode i).toOption := by
  have hread : encode t (.text (toString i)) =
      (readInteger f.width f.low f.high (toString i)).map some := by
    obtain ⟨rfl, rfl⟩ | ⟨rfl, rfl⟩ | ⟨rfl, rfl⟩ := integer?_of_ne_oid h ht <;> rfl
  have hsigned : f.low < 0 ∧ 0 ≤ f.high := by
    obtain ⟨-, rfl⟩ | ⟨-, rfl⟩ | ⟨-, rfl⟩ := integer?_of_ne_oid h ht <;> decide
  rw [hread, readInteger, readInt_toString hsigned.1 hsigned.2, IntegerFormat.encode, encodeRanged]
  by_cases hlow : i < f.low
  · rw [if_pos hlow, if_pos hlow]
    rfl
  · by_cases hhigh : f.high < i
    · rw [if_neg hlow, if_pos hhigh, if_neg hlow, if_pos hhigh]
      rfl
    · rw [if_neg hlow, if_neg hhigh, if_neg hlow, if_neg hhigh]

theorem not_encodesAlike_oid (hi : IntegerFormat.long.Holds i) :
    ¬EncodesAlike .oid (.text (toString i)) (.int i) := by
  have htext : encode .oid (.text (toString i)) = .ok (some (Text.utf8 (toString i))) := rfl
  rw [EncodesAlike, htext, encode_int (f := .oid) rfl hi]
  intro h
  have hbytes : IntegerFormat.oid.encode i = .ok (some (Text.utf8 (toString i))) := by
    cases hencode : IntegerFormat.oid.encode i with
    | error => simp [hencode, Except.toOption] at h
    | ok b => simpa [hencode, Except.toOption, eq_comm] using h
  obtain ⟨⟨hlow, hhigh⟩, hsame⟩ := IntegerFormat.encode_eq_ok.1 hbytes
  have hlow : 0 ≤ i := hlow
  have hhigh : i ≤ 0xffffffff := hhigh
  -- the four bytes stand for the integer itself, the bytes of its digits for more
  have hvalue : (toNat (Text.utf8 (toString i)) : Int) = i := by
    have hfour : Text.utf8 (toString i) = ofInt 4 i := Option.some.inj hsame
    rw [hfour, toNat_ofInt]
    exact Int.emod_eq_of_lt hlow (by omega)
  have hmore : i.natAbs < toNat (Text.utf8 (toString i)) := by
    rw [utf8_toString hlow]
    calc i.natAbs = digitsValue (Nat.toDigits 10 i.natAbs) := (digitsValue_toDigits _).symm
      _ < _ := digitsValue_lt_toNat (fun _ hc ↦ isDigit_of_mem_toDigits hc) Nat.toDigits_ne_nil
  omega

theorem encodesAlike_toString_iff (h : t.integer? = some f) (hi : IntegerFormat.long.Holds i) :
    EncodesAlike t (.text (toString i)) (.int i) ↔ t ≠ .oid := by
  constructor
  · rintro halike rfl
    exact not_encodesAlike_oid hi halike
  · intro ht
    rw [EncodesAlike, encode_text_signed h ht, encode_int h hi]

end Wire

namespace Text

theorem isBlank_of_isNumeric {c : Char} (h : isNumeric c) : isBlank c = false := by
  simp only [isNumeric, Bool.or_eq_true, beq_iff_eq] at h
  rcases h with (((hdigit | rfl) | rfl) | rfl) | rfl
  · exact Calendar.isBlank_of_isDigit hdigit
  all_goals decide

theorem isItem_toString (n : Int) : IsItem (toString n) where
  nonempty h := (int_numeric n).1 (congrArg String.toList h)
  comma h := absurd ((int_numeric n).2 ',' h) (by decide)
  first c h := isBlank_of_isNumeric ((int_numeric n).2 c (List.mem_of_mem_head? h))
  last c h := isBlank_of_isNumeric ((int_numeric n).2 c (List.mem_of_getLast? h))

theorem isSeparator_comma : IsSeparator "," := ⟨"", "", rfl, rfl, rfl⟩

end Text

namespace FilterValue

def ofTexts (ns : List Int) : FilterValue := .text (Text.join "," (ns.map toString))

def ofInts (ns : List Int) : FilterValue := .list (ns.map .int)

theorem members_ofTexts {ns : List Int} (hne : ns ≠ []) :
    (ofTexts ns).members = ns.map fun n ↦ .text (toString n) := by
  have hitems : ∀ s ∈ ns.map toString, Text.IsItem s := by
    intro s hs
    obtain ⟨n, -, rfl⟩ := List.mem_map.1 hs
    exact Text.isItem_toString n
  have hmembers := members_join (by simpa using hne) hitems Text.isSeparator_comma
  rw [List.map_map] at hmembers
  exact hmembers

end FilterValue

namespace FilterCondition

def onTexts (c : FilterCondition) (ns : List Int) : FilterCondition :=
  { c with value := .ofTexts ns }

def onInts (c : FilterCondition) (ns : List Int) : FilterCondition := { c with value := .ofInts ns }

variable {c : FilterCondition} {ns : List Int}

theorem IsListing.bound_eq (h : c.IsListing) {v : FilterValue} {members : List FilterValue}
    (hv : v.members = members) (hne : members ≠ []) :
    bound { c with value := v } = [.list members] := by
  have hsome : ¬members.isEmpty := by simpa using hne
  rcases h with h | h
  all_goals
    simp only [bound, h, hv]
    exact if_neg hsome

theorem IsListing.bound_onTexts (h : c.IsListing) (hne : ns ≠ []) :
    (c.onTexts ns).bound = [.list (ns.map fun n ↦ .text (toString n))] :=
  h.bound_eq (FilterValue.members_ofTexts hne) (by simpa using hne)

theorem IsListing.bound_onInts (h : c.IsListing) (hne : ns ≠ []) :
    (c.onInts ns).bound = [.list (ns.map .int)] :=
  h.bound_eq rfl (by simpa using hne)

theorem IsListing.isKept (h : c.IsListing) : c.isKept := by
  rcases h with h | h <;> rw [FilterCondition.isKept, h] <;> rfl

theorem IsListing.alike (h : c.IsListing) (hne : ns ≠ []) : (c.onTexts ns).Alike (c.onInts ns) where
  field := rfl
  operator := rfl
  relation := rfl
  kept := (IsListing.isKept (c := c.onTexts ns) h).trans
    (IsListing.isKept (c := c.onInts ns) h).symm
  empty _ := by
    rw [onTexts, onInts, FilterValue.members_ofTexts hne, FilterValue.ofInts, FilterValue.members]
    simp
  widths := by
    rw [h.bound_onTexts hne, h.bound_onInts hne]
    simp [FilterValue.expanded]

end FilterCondition

theorem forall₂_append_iff {α β : Type} {R : α → β → Prop} {as as' : List α} {bs bs' : List β}
    (h : as.length = bs.length) : List.Forall₂ R (as ++ as') (bs ++ bs') ↔
      List.Forall₂ R as bs ∧ List.Forall₂ R as' bs' := by
  induction as generalizing bs with
  | nil =>
    obtain rfl := List.eq_nil_of_length_eq_zero h.symm
    simp
  | cons a as ih =>
    cases bs with
    | nil => simp at h
    | cons b bs => simp [ih (Nat.succ.inj h), and_assoc]

theorem forall₂_between {α : Type} {R : α → α → Prop} (hrefl : ∀ a, R a a) {as bs : List α}
    (h : as.length = bs.length) (front back : List α) :
    List.Forall₂ R (front ++ as ++ back) (front ++ bs ++ back) ↔ List.Forall₂ R as bs := by
  have hsame (l : List α) : List.Forall₂ R l l := List.forall₂_same.2 fun a _ ↦ hrefl a
  rw [forall₂_append_iff (by simp [h]), forall₂_append_iff rfl]
  exact ⟨fun ⟨⟨_, hmid⟩, _⟩ ↦ hmid, fun hmid ↦ ⟨⟨hsame front, hmid⟩, hsame back⟩⟩

namespace Plan

variable {s : Schema} {root : Entity} {name : String} {o : QueryOptions} {p : Plan}
  {t : AliasTable}

/-- Filters on the same fields are accepted alike, with the same joins and the same names. -/
theorem exists_compile_filters {filters filters' : List FilterCondition}
    (h : compile s name (o.filteredBy filters) = .ok p)
    (hfields : filters'.map FilterCondition.checkedField =
      filters.map FilterCondition.checkedField) :
    ∃ p' root t, compile s name (o.filteredBy filters') = .ok p' ∧ p'.hasToMany = p.hasToMany ∧
      Compiled s root (o.filteredBy filters) p t ∧
        Compiled s root (o.filteredBy filters') p' t := by
  obtain ⟨root, joined, t, hroot, hv, hplan, rfl⟩ := compile_eq_ok.1 h
  have hv' : (o.filteredBy filters').IsValid s root := { hv with
    filters := fun f hf ↦ by
      have hfield : f.checkedField ∈ filters.map FilterCondition.checkedField :=
        hfields ▸ List.mem_map_of_mem hf
      obtain ⟨g, hg, hsame⟩ := List.mem_map.1 hfield
      exact hsame ▸ hv.filters g hg }
  exact ⟨assembled root (o.filteredBy filters') joined t, root, t,
    compile_eq_ok.2 ⟨root, joined, t, hroot, hv', hplan, rfl⟩, rfl,
    compiled_assembled hv hplan, compiled_assembled hv' hplan⟩

theorem Compiled.values_listed {before after : List FilterCondition} {f : FilterCondition}
    {vs : List FilterValue} (h : Compiled s root (o.filteredBy (before ++ f :: after)) p t)
    (hf : f.bound = [.list vs]) : (Draft.conjunction p).values =
      (before.flatMap FilterCondition.bound).flatMap FilterValue.expanded ++ vs ++
        ((after.flatMap FilterCondition.bound).flatMap FilterValue.expanded ++
          ((o.searched t).bindings.map (·.2)).flatMap FilterValue.expanded) := by
  have hfilters : (o.filteredBy (before ++ f :: after)).filters = before ++ f :: after := rfl
  have hsearched : (o.filteredBy (before ++ f :: after)).searched t = o.searched t := rfl
  rw [h.values_eq, hfilters, hsearched, List.flatMap_append, List.flatMap_cons, hf,
    List.flatMap_append, List.flatMap_append, List.flatMap_singleton]
  simp only [FilterValue.expanded, List.append_assoc]

end Plan

theorem forall₂_params_select {R : FilterValue → FilterValue → Prop} {p p' : Plan}
    (hmany : p'.hasToMany = p.hasToMany)
    (hlength : (Draft.conjunction p).values.length = (Draft.conjunction p').values.length)
    (d : Dialect) : List.Forall₂ R ((Draft.select p).statement d).params
      ((Draft.select p').statement d).params ↔
        List.Forall₂ R (Draft.conjunction p).values (Draft.conjunction p').values := by
  rw [Plan.params_select, Plan.params_select, hmany, forall₂_append_iff hlength]
  split
  · exact and_self_iff
  · exact and_iff_left .nil

namespace Wire

variable {t : ColumnType} {f : IntegerFormat} {ns : List Int}

/-- Two statements with the same text, whose parameters are written alike as one type. -/
structure BindAlike (t : ColumnType) (st st' : Statement) : Prop where
  sql : st.sql = st'.sql
  params : List.Forall₂ (EncodesAlike t) st.params st'.params

theorem bindAlike_iff {st st' : Statement} (h : st.sql = st'.sql) :
    BindAlike t st st' ↔ List.Forall₂ (EncodesAlike t) st.params st'.params :=
  ⟨fun halike ↦ halike.params, fun hparams ↦ ⟨h, hparams⟩⟩

theorem forall₂_encodesAlike_iff (h : t.integer? = some f) (hne : ns ≠ [])
    (hns : ∀ n ∈ ns, IntegerFormat.long.Holds n) :
    List.Forall₂ (EncodesAlike t) (ns.map fun n ↦ .text (toString n)) (ns.map .int) ↔
      t ≠ .oid := by
  rw [List.forall₂_map_left_iff, List.forall₂_map_right_iff, List.forall₂_same]
  constructor
  · intro halike
    obtain ⟨n, rest, rfl⟩ := List.exists_cons_of_ne_nil hne
    exact (encodesAlike_toString_iff h (hns n List.mem_cons_self)).1 (halike n List.mem_cons_self)
  · intro ht n hn
    exact (encodesAlike_toString_iff h (hns n hn)).2 ht

end Wire

namespace Plan

open Wire

variable {s : Schema} {name : String} {o : QueryOptions} {p : Plan} {ns : List Int}
  {c : FilterCondition} {before after : List FilterCondition} {t : ColumnType} {f : IntegerFormat}

theorem alike_listings (hne : ns ≠ []) (hc : c.IsListing) :
    (o.filteredBy (before ++ c.onTexts ns :: after)).Alike
      (o.filteredBy (before ++ c.onInts ns :: after)) where
  others := rfl
  search := rfl
  filters := List.rel_append (List.forall₂_same.2 fun g _ ↦ .refl g)
    (.cons (hc.alike hne) (List.forall₂_same.2 fun g _ ↦ .refl g))

/-- Both statements are those of the other list up to the integers of the two lists. -/
theorem bindAlike_iff_of_compile (h : t.integer? = some f) (hne : ns ≠ [])
    (hns : ∀ n ∈ ns, IntegerFormat.long.Holds n) (hc : c.IsListing)
    (hp : compile s name (o.filteredBy (before ++ c.onTexts ns :: after)) = .ok p) :
    ∃ p', compile s name (o.filteredBy (before ++ c.onInts ns :: after)) = .ok p' ∧
      ∀ d, ∃ page page' count count', p.selectStatement d = .ok page ∧
        p'.selectStatement d = .ok page' ∧ p.countStatement d = .ok count ∧
        p'.countStatement d = .ok count' ∧
        (BindAlike t page page' ↔ t ≠ .oid) ∧ (BindAlike t count count' ↔ t ≠ .oid) := by
  have hfields : (before ++ c.onInts ns :: after).map FilterCondition.checkedField =
      (before ++ c.onTexts ns :: after).map FilterCondition.checkedField := by
    rw [List.map_append, List.map_append]
    rfl
  obtain ⟨p', root, u, hp', hmany, hcompiled, hcompiled'⟩ := exists_compile_filters hp hfields
  have herased := erased_eq_of_alike (alike_listings hne hc) hp hp'
  have htexts := hcompiled.values_listed (hc.bound_onTexts hne)
  have hints := hcompiled'.values_listed (hc.bound_onInts hne)
  have hwidth : (ns.map fun n ↦ FilterValue.text (toString n)).length =
      (ns.map FilterValue.int).length := by
    rw [List.length_map, List.length_map]
  have hlength : (Draft.conjunction p).values.length = (Draft.conjunction p').values.length := by
    simp only [htexts, hints, List.length_append, hwidth]
  have hvalues : List.Forall₂ (EncodesAlike t) (Draft.conjunction p).values
      (Draft.conjunction p').values ↔ t ≠ .oid := by
    rw [htexts, hints, ← forall₂_encodesAlike_iff h hne hns]
    exact forall₂_between EncodesAlike.refl hwidth _ _
  refine ⟨p', hp', fun d ↦ ⟨_, _, _, _, hcompiled.isBound.selectStatement d,
    hcompiled'.isBound.selectStatement d, hcompiled.isBound.countStatement d,
    hcompiled'.isBound.countStatement d, ?_, ?_⟩⟩
  · rw [bindAlike_iff (Draft.select_sql_eq herased d), forall₂_params_select hmany hlength, hvalues]
  · rw [bindAlike_iff (Draft.count_sql_eq herased d), params_count, params_count, hvalues]

end Plan

namespace Wire

/-- The text of an integer has the same outcome as the integer for every integer type but one, and
so does a list of integers in one text, in a filter among any others. -/
theorem texts_alike_iff {t : ColumnType} {f : IntegerFormat} (h : t.integer? = some f) :
    (∀ n, IntegerFormat.long.Holds n →
      (EncodesAlike t (.text (toString n)) (.int n) ↔ t ≠ .oid)) ∧
    ∀ ns ≠ [], (∀ n ∈ ns, IntegerFormat.long.Holds n) → ∀ c : FilterCondition, c.IsListing →
      ∀ s name (o : QueryOptions) before after p,
      Plan.compile s name (o.filteredBy (before ++ c.onTexts ns :: after)) = .ok p →
      ∃ p', Plan.compile s name (o.filteredBy (before ++ c.onInts ns :: after)) = .ok p' ∧
        ∀ d, ∃ page page' count count', p.selectStatement d = .ok page ∧
          p'.selectStatement d = .ok page' ∧ p.countStatement d = .ok count ∧
          p'.countStatement d = .ok count' ∧
          (BindAlike t page page' ↔ t ≠ .oid) ∧ (BindAlike t count count' ↔ t ≠ .oid) :=
  ⟨fun _ hn ↦ encodesAlike_toString_iff h hn,
    fun _ hne hns _ hc _ _ _ _ _ _ hp ↦ Plan.bindAlike_iff_of_compile h hne hns hc hp⟩

def onAmount : FilterCondition := ⟨"amount", .isIn, .null, none⟩

def besides : FilterCondition := ⟨"id", .gt, .int 1, none⟩

def asTexts : QueryOptions := QueryOptions.filteredBy {} [besides, onAmount.onTexts [7, 8]]

def asInts : QueryOptions := QueryOptions.filteredBy {} [besides, onAmount.onInts [7, 8]]

theorem texts_alike_iff_amounts :
    EncodesAlike .int2 (.text (toString (70000 : Int))) (.int 70000) ∧
    ∃ p p', Plan.compile Plan.payments "Payment" asTexts = .ok p ∧
      Plan.compile Plan.payments "Payment" asInts = .ok p' ∧
      ∃ page page', p.selectStatement .postgres = .ok page ∧
        p'.selectStatement .postgres = .ok page' ∧ BindAlike .int2 page page' := by
  obtain ⟨hone, hlists⟩ := texts_alike_iff (t := .int2) rfl
  have hne : ColumnType.int2 ≠ .oid := by decide
  have hname : (Plan.compile Plan.payments "Payment" asTexts).toOption.map (·.rootName) =
      some "payment" := by
    decide +kernel
  obtain ⟨p, hp, -⟩ := exists_ok_of_map hname
  obtain ⟨p', hp', hstatements⟩ := hlists [7, 8] (by decide) (by decide) onAmount (.inl rfl)
    Plan.payments "Payment" {} [besides] [] p hp
  obtain ⟨page, page', -, -, hpage, hpage', -, -, halike, -⟩ := hstatements .postgres
  exact ⟨(hone 70000 (by decide)).2 hne, p, p', hp, hp', page, page', hpage, hpage', halike.2 hne⟩

/-- Where the number is four bytes its text is the byte of a digit. -/
theorem encode_oidText : encode .oid (.text (toString (7 : Int))) = .ok (some [0x37]) ∧
    encode .oid (.int 7) = .ok (some [0, 0, 0, 7]) ∧
    ¬EncodesAlike .oid (.text (toString (7 : Int))) (.int 7) := by
  have htext : encode .oid (.text (toString (7 : Int))) = .ok (some [0x37]) := by
    have hutf : Text.utf8 (toString (7 : Int)) = [0x37] := utf8_toString (by decide)
    show Except.ok (some (Text.utf8 (toString (7 : Int)))) = _
    rw [hutf]
  refine ⟨htext, rfl, fun h ↦ ?_⟩
  rw [EncodesAlike, htext] at h
  exact absurd h (by decide)

end Wire

end Listing
