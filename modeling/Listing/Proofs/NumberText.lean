import Listing.Number.Shortest
import Mathlib.Data.List.Basic
import Std.Data.String.ToInt

namespace Listing.Number

def isNumeric (c : Char) : Bool := c.isDigit || c == '-' || c == '+' || c == '.' || c == 'e'

def Ends (r : List Char) : Prop := ∀ c ∈ r.head?, isNumeric c = false

theorem takeWhile_append {p : Char → Bool} {cs r : List Char} (hcs : ∀ c ∈ cs, p c)
    (hr : ∀ c ∈ r.head?, p c = false) : (cs ++ r).takeWhile p = cs := by
  rw [List.takeWhile_append_of_pos hcs]
  cases r with
  | nil => simp
  | cons c r => simp [hr c rfl]

theorem dropWhile_append {p : Char → Bool} {cs r : List Char} (hcs : ∀ c ∈ cs, p c)
    (hr : ∀ c ∈ r.head?, p c = false) : (cs ++ r).dropWhile p = r := by
  rw [List.dropWhile_append_of_pos hcs]
  cases r with
  | nil => rfl
  | cons c r => simp [hr c rfl]

theorem numeric_append_inj {cs cs' r r' : List Char} (hcs : ∀ c ∈ cs, isNumeric c)
    (hcs' : ∀ c ∈ cs', isNumeric c) (hr : Ends r) (hr' : Ends r') (h : cs ++ r = cs' ++ r') :
    cs = cs' ∧ r = r' := by
  have htexts : cs = cs' := by
    rw [← takeWhile_append hcs hr, h, takeWhile_append hcs' hr']
  subst htexts
  exact ⟨rfl, List.append_cancel_left h⟩

theorem isNumeric_of_isDigit {c : Char} (h : c.isDigit) : isNumeric c := by
  simp [isNumeric, h]

theorem isNumeric_toDigits {n : Nat} {c : Char} (h : c ∈ Nat.toDigits 10 n) : isNumeric c :=
  isNumeric_of_isDigit (Nat.isDigit_of_mem_toDigits (by decide) (by decide) h)

theorem toList_toString (i : Int) : (toString i).toList =
    if i < 0 then '-' :: Nat.toDigits 10 i.natAbs else Nat.toDigits 10 i.natAbs := by
  cases i with
  | ofNat n =>
    have htext : toString (Int.ofNat n) = n.repr := rfl
    rw [htext, Nat.toList_repr]
    rfl
  | negSucc n =>
    have htext : toString (Int.negSucc n) = "-" ++ (n + 1).repr := rfl
    rw [htext, String.toList_append, Nat.toList_repr, if_pos (Int.negSucc_lt_zero n)]
    rfl

theorem int_numeric (i : Int) : (toString i).toList ≠ [] ∧
    ∀ c ∈ (toString i).toList, isNumeric c := by
  have hdigits : ∀ c ∈ Nat.toDigits 10 i.natAbs, isNumeric c := fun c hc ↦ isNumeric_toDigits hc
  rw [toList_toString]
  split
  · exact ⟨by simp, List.forall_mem_cons.2 ⟨rfl, hdigits⟩⟩
  · exact ⟨Nat.toDigits_ne_nil, hdigits⟩

theorem positional_numeric {digits : List Char} (h : ∀ c ∈ digits, isNumeric c) (point : Int) :
    positional digits point ≠ [] ∧
      ∀ c ∈ positional digits point, isNumeric c := by
  have hzero : isNumeric '0' := by decide
  have hpoint : isNumeric '.' := by decide
  rw [positional]
  split_ifs with hsmall hlarge
  · refine ⟨by simp, ?_⟩
    simp only [List.mem_cons, List.mem_append, List.mem_replicate]
    rintro c (rfl | rfl | ⟨-, rfl⟩ | hc)
    · exact hzero
    · exact hpoint
    · exact hzero
    · exact h c hc
  · refine ⟨fun hnil ↦ ?_, ?_⟩
    · have hlength := congrArg List.length hnil
      simp only [List.length_append, List.length_replicate, List.length_nil] at hlength
      omega
    · simp only [List.mem_append, List.mem_replicate]
      rintro c (hc | ⟨-, rfl⟩)
      · exact h c hc
      · exact hzero
  · refine ⟨by simp, ?_⟩
    simp only [List.mem_append, List.mem_cons]
    rintro c (hc | rfl | hc)
    · exact h c (List.mem_of_mem_take hc)
    · exact hpoint
    · exact h c (List.mem_of_mem_drop hc)

theorem scientific_numeric {digits : List Char} (h : ∀ c ∈ digits, isNumeric c) (point : Int) :
    scientific digits point ≠ [] ∧
      ∀ c ∈ scientific digits point, isNumeric c := by
  have hpoint : isNumeric '.' := by decide
  have he : isNumeric 'e' := by decide
  have hmark : isNumeric (if point - 1 < 0 then '-' else '+') := by
    split_ifs <;> decide
  have hexponent : ∀ c ∈ Nat.toDigits 10 (point - 1).natAbs, isNumeric c :=
    fun c hc ↦ isNumeric_toDigits hc
  match digits with
  | [] =>
    refine ⟨by simp [scientific], ?_⟩
    simpa only [scientific, List.nil_append, List.forall_mem_cons] using
      ⟨he, hmark, hexponent⟩
  | [d] =>
    refine ⟨by simp [scientific], ?_⟩
    simpa only [scientific, List.cons_append, List.nil_append, List.forall_mem_cons] using
      ⟨h d (by simp), he, hmark, hexponent⟩
  | d :: d' :: rest =>
    refine ⟨by simp [scientific], ?_⟩
    simp only [scientific, List.cons_append, List.forall_mem_cons, List.forall_mem_append]
    exact ⟨h d (by simp), hpoint, h d' (by simp), fun c hc ↦ h c (by simp [hc]), he, hmark,
      hexponent⟩

theorem signText_numeric (negative : Bool) : ∀ c ∈ Double.signText negative, isNumeric c := by
  cases negative <;> simp [Double.signText, isNumeric]

theorem layout_numeric (x : Decimal) : ∀ c ∈ x.layout.1, isNumeric c := by
  intro c hc
  have hkept := List.mem_reverse.1 hc
  exact isNumeric_toDigits (List.mem_reverse.1 ((List.dropWhile_sublist _).subset hkept))

theorem jsonText?_numeric {x : Double} {cs : List Char} (h : x.jsonText? = some cs) :
    cs ≠ [] ∧ ∀ c ∈ cs, isNumeric c := by
  have hzero : ∀ c ∈ ['.', '0'], isNumeric c := by simp [isNumeric]
  rw [Double.jsonText?] at h
  split at h
  · simp at h
  · simp at h
  · next negative _ _ =>
    obtain rfl := Option.some.inj h
    refine ⟨by simp, List.forall_mem_append.2 ⟨signText_numeric negative, ?_⟩⟩
    simp [isNumeric]
  · next negative m q _ _ =>
    have hdigits := layout_numeric (Format.binary64.shortest m q)
    generalize (Format.binary64.shortest m q).layout = layout at h hdigits
    obtain ⟨digits, point⟩ := layout
    obtain rfl := Option.some.inj h
    obtain ⟨hp, hpositional⟩ := positional_numeric hdigits point
    obtain ⟨hs, hscientific⟩ := scientific_numeric hdigits point
    have hsign := signText_numeric negative
    dsimp only
    split_ifs
    · exact ⟨by simp, List.forall_mem_append.2
        ⟨hsign, List.forall_mem_append.2 ⟨hpositional, hzero⟩⟩⟩
    · exact ⟨by simp [hp], List.forall_mem_append.2 ⟨hsign, hpositional⟩⟩
    · exact ⟨by simp [hs], List.forall_mem_append.2 ⟨hsign, hscientific⟩⟩

end Listing.Number
