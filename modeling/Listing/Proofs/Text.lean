import Listing.Text.Split
import Listing.Text.Utf8
import Mathlib.Data.List.Infix

namespace Listing.Text

theorem not_mem_of_mem_splitOn {α : Type} [BEq α] [LawfulBEq α] (a : α) (l : List α) :
    ∀ part ∈ l.splitOn a, a ∉ part := by
  induction l with
  | nil => simp
  | cons x l ih =>
    rw [List.splitOn_cons_eq_if_modifyHead]
    by_cases hx : x == a
    · rw [if_pos hx]
      intro part hpart
      rcases List.mem_cons.1 hpart with rfl | hpart
      · simp
      · exact ih part hpart
    · rw [if_neg hx]
      have hxa : a ≠ x := fun h ↦ hx (by simp [h])
      cases hl : l.splitOn a with
      | nil => simp
      | cons head rest =>
        rw [hl] at ih
        intro part hpart
        rcases List.mem_cons.1 hpart with rfl | hpart
        · simpa [hxa] using ih head (by simp)
        · exact ih part (by simp [hpart])

theorem not_mem_of_mem_split (c : Char) {s part : String} (h : part ∈ split c s) :
    c ∉ part.toList := by
  obtain ⟨l, hl, rfl⟩ := List.mem_map.1 h
  simpa using not_mem_of_mem_splitOn c s.toList l hl

theorem split_ne_nil (c : Char) (s : String) : split c s ≠ [] := by simp [split]

theorem join_split (c : Char) (s : String) : join (String.singleton c) (split c s) = s := by
  simp [join, split, Function.comp_def]

theorem split_join (c : Char) {parts : List String} (hne : parts ≠ [])
    (h : ∀ part ∈ parts, c ∉ part.toList) :
    split c (join (String.singleton c) parts) = parts := by
  rw [split, join, String.toList_ofList, String.toList_singleton, List.splitOn_intercalate]
  · simp [Function.comp_def]
  · simpa using h
  · simpa using hne

theorem split_eq_singleton (c : Char) {s : String} (h : c ∉ s.toList) : split c s = [s] := by
  simp [split, List.splitOn_eq_singleton h]

theorem split_append (c : Char) (s s' : String) :
    split c (s ++ String.singleton c ++ s') = split c s ++ split c s' := by
  simp [split, List.splitOn_append_cons_self]

theorem join_singleton (separator s : String) : join separator [s] = s := by simp [join]

theorem join_cons_cons (separator s s' : String) (parts : List String) :
    join separator (s :: s' :: parts) = s ++ separator ++ join separator (s' :: parts) := by
  apply String.toList_injective
  simp [join, List.append_assoc]

theorem split_join_eq_flatMap (c : Char) {parts : List String} (hne : parts ≠ []) :
    split c (join (String.singleton c) parts) = parts.flatMap (split c) := by
  induction parts with
  | nil => exact absurd rfl hne
  | cons s parts ih =>
    cases parts with
    | nil => rw [join_singleton, List.flatMap_singleton]
    | cons s' parts => rw [join_cons_cons, split_append, ih (List.cons_ne_nil _ _)]; rfl

/-- Texts are joined alike exactly if they have the same parts between separators. -/
theorem join_eq_join_iff (c : Char) {parts parts' : List String} (hne : parts ≠ [])
    (hne' : parts' ≠ []) :
    join (String.singleton c) parts = join (String.singleton c) parts' ↔
      parts.flatMap (split c) = parts'.flatMap (split c) := by
  rw [← split_join_eq_flatMap c hne, ← split_join_eq_flatMap c hne']
  constructor
  · exact congrArg (split c)
  · intro h
    rw [← join_split c (join _ parts), h, join_split]

theorem isDigit_of_mem_toString {n : Nat} {c : Char} (h : c ∈ (toString n).toList) : c.isDigit := by
  simp only [Nat.toString_eq_repr, Nat.repr, String.toList_ofList] at h
  exact Nat.isDigit_of_mem_toDigits (by decide) (by decide) h

theorem toList_byteArray (bytes : ByteArray) : bytes.toList = bytes.data.toList := by
  have hloop (i : Nat) (r : List UInt8) :
      ByteArray.toList.loop bytes i r = r.reverse ++ bytes.data.toList.drop i := by
    fun_induction ByteArray.toList.loop bytes i r with
    | case1 i r h ih =>
      have hi : i < bytes.data.toList.length := by simpa using h
      rw [ih, List.drop_eq_getElem_cons hi]
      simp [ByteArray.get!, h]
    | case2 i r h =>
      have hi : bytes.data.toList.length ≤ i := by simpa using Nat.le_of_not_lt h
      rw [List.drop_eq_nil_of_le hi, List.append_nil]
  rw [ByteArray.toList, hloop]
  rfl

theorem utf8_append (s s' : String) : utf8 (s ++ s') = utf8 s ++ utf8 s' := by
  simp [utf8, toList_byteArray, String.toByteArray_append]

theorem utf8_eq_flatMap (s : String) : utf8 s = s.toList.flatMap String.utf8EncodeChar := by
  rw [utf8, String.toUTF8, ← String.utf8Encode_toList, toList_byteArray, List.utf8Encode,
    List.data_toByteArray, List.toList_toArray]

theorem utf8EncodeChar_of_ascii {c : Char} (h : c.toNat ≤ 127) :
    String.utf8EncodeChar c = [UInt8.ofNat c.toNat] := if_pos h

theorem utf8_of_ascii {s : String} (h : ∀ c ∈ s.toList, c.toNat ≤ 127) :
    utf8 s = s.toList.map fun c ↦ UInt8.ofNat c.toNat := by
  rw [utf8_eq_flatMap, List.map_eq_flatMap]
  exact List.flatMap_congr fun c hc ↦ utf8EncodeChar_of_ascii (h c hc)

theorem ofUtf8?_utf8 (s : String) : ofUtf8? (utf8 s) = some s := by
  have hbytes : (⟨(utf8 s).toArray⟩ : ByteArray) = s.toByteArray := by
    rw [utf8, toList_byteArray]
    rfl
  rw [ofUtf8?, hbytes, String.fromUTF8?, dif_pos s.isValidUTF8]
  rfl

theorem ofUtf8?_eq_some_iff {bytes : List UInt8} {s : String} :
    ofUtf8? bytes = some s ↔ bytes = utf8 s := by
  refine ⟨fun h ↦ ?_, fun h ↦ h ▸ ofUtf8?_utf8 s⟩
  obtain ⟨hvalid, h⟩ := Option.dite_none_right_eq_some.1 h
  obtain rfl := Option.some.inj h
  exact (toList_byteArray ⟨bytes.toArray⟩).symm

end Listing.Text
