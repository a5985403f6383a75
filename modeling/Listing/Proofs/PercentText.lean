import Listing.Proofs.Text
import Listing.Text.Percent

namespace Listing.Text

/-- A text of plain characters that is decoded to another one. -/
structure IsEncoded (plain : Char → Bool) (s encoded : String) : Prop where
  isPlain : ∀ c ∈ encoded.toList, plain c
  decode : percentDecode (utf8 encoded) = utf8 s

/-- Whether two hexadecimal digits follow a percent sign somewhere. -/
def hasEscape : List UInt8 → Bool
  | [] => false
  | b :: bytes =>
    match bytes with
    | high :: low :: _ =>
      (b == 0x25 && (hexOfByte? high).isSome && (hexOfByte? low).isSome) || hasEscape bytes
    | _ => hasEscape bytes

theorem utf8_injective {s s' : String} (h : utf8 s = utf8 s') : s = s' :=
  Option.some.inj (by rw [← ofUtf8?_utf8 s, h, ofUtf8?_utf8])

theorem percentDecode_cons {b : UInt8} (h : b ≠ 0x25) (bytes : List UInt8) :
    percentDecode (b :: bytes) = b :: percentDecode bytes := by
  have hb : (b == 0x25) = false := beq_false_of_ne h
  match bytes with
  | [] | [_] => rfl
  | high :: low :: rest => simp [percentDecode, hb]

theorem length_percentDecode_le (bytes : List UInt8) :
    (percentDecode bytes).length ≤ bytes.length := by
  fun_induction percentDecode bytes with
  | case1 => exact Nat.le_refl 0
  | case2 b high low rest hb h l ih => simp only [List.length_cons]; omega
  | case3 b high low rest hnone ih => simpa using ih
  | case4 b short hshort ih => simpa using ih

/-- Decoding changes a text exactly if there is something to decode. -/
theorem percentDecode_eq_self_iff (bytes : List UInt8) :
    percentDecode bytes = bytes ↔ hasEscape bytes = false := by
  fun_induction percentDecode bytes with
  | case1 => simp [hasEscape]
  | case2 b high low rest h l hlow hhigh hb ih =>
    -- Three bytes became one, and the rest cannot make up for it.
    have hle := length_percentDecode_le rest
    refine iff_of_false (fun heq ↦ ?_) (by simp [hasEscape, hb, hhigh, hlow])
    have hlength := congrArg List.length heq
    simp only [List.length_cons] at hlength
    omega
  | case3 b high low rest hnone ih =>
    have hescape : (b == 0x25 && (hexOfByte? high).isSome && (hexOfByte? low).isSome) = false := by
      rw [← Bool.not_eq_true]
      simp only [Bool.and_eq_true, Option.isSome_iff_exists]
      rintro ⟨⟨hb, h, hhigh⟩, l, hlow⟩
      exact hnone h l hb hhigh hlow
    rw [List.cons_inj_right, ih, hasEscape, hescape, Bool.false_or]
  | case4 b short hshort ih =>
    rw [List.cons_inj_right, ih]
    match short with
    | [] | [_] => rfl
    | high :: low :: rest => exact (hshort high low rest rfl).elim

theorem upperHex_ascii : ∀ n < 16, (upperHex n).toNat ≤ 127 := by decide

theorem hexOfByte?_upperHex :
    ∀ n < 16, hexOfByte? (UInt8.ofNat (upperHex n).toNat) = some n := by decide

theorem percentDecode_percentByte (b : UInt8) (bytes : List UInt8) :
    percentDecode ((percentByte b).flatMap String.utf8EncodeChar ++ bytes) =
      b :: percentDecode bytes := by
  have hb := b.toNat_lt
  have hhigh : b.toNat / 16 < 16 := by omega
  have hlow : b.toNat % 16 < 16 := by omega
  have hbyte : 16 * (b.toNat / 16) + b.toNat % 16 = b.toNat := by omega
  have hmark : String.utf8EncodeChar '%' = [0x25] := by decide
  have hbytes : (percentByte b).flatMap String.utf8EncodeChar =
      [0x25, UInt8.ofNat (upperHex (b.toNat / 16)).toNat,
        UInt8.ofNat (upperHex (b.toNat % 16)).toNat] := by
    simp [percentByte, hmark, utf8EncodeChar_of_ascii (upperHex_ascii _ hhigh),
      utf8EncodeChar_of_ascii (upperHex_ascii _ hlow)]
  rw [hbytes, List.cons_append, List.cons_append, List.singleton_append, percentDecode,
    hexOfByte?_upperHex _ hhigh, hexOfByte?_upperHex _ hlow]
  simp [hbyte]

theorem percentDecode_percentBytes (front bytes : List UInt8) :
    percentDecode ((front.flatMap percentByte).flatMap String.utf8EncodeChar ++ bytes) =
      front ++ percentDecode bytes := by
  induction front with
  | nil => rfl
  | cons b front ih =>
    rw [List.flatMap_cons, List.flatMap_append, List.append_assoc, percentDecode_percentByte, ih]
    rfl

variable {kept plain : Char → Bool}

theorem percentDecode_percentEncode (hkept : ∀ c, kept c → c.toNat ≤ 127 ∧ c ≠ '%')
    (cs : List Char) : percentDecode ((percentEncode kept cs).flatMap String.utf8EncodeChar) =
      cs.flatMap String.utf8EncodeChar := by
  rw [percentEncode]
  induction cs with
  | nil => rfl
  | cons c cs ih =>
    rw [List.flatMap_cons, List.flatMap_append, List.flatMap_cons]
    by_cases hc : kept c
    · obtain ⟨hascii, hmark⟩ := hkept c hc
      have hbyte : UInt8.ofNat c.toNat ≠ 0x25 := by
        intro heq
        have hnat := congrArg UInt8.toNat heq
        rw [UInt8.toNat_ofNat', Nat.mod_eq_of_lt (by omega)] at hnat
        exact hmark (Char.toNat_inj.1 hnat)
      rw [if_pos hc, List.flatMap_singleton, utf8EncodeChar_of_ascii hascii, List.singleton_append,
        percentDecode_cons hbyte, ih]
      rfl
    · rw [if_neg hc, percentDecode_percentBytes, ih, utf8_eq_flatMap, String.toList_singleton,
        List.flatMap_singleton]

theorem mem_percentByte_upperHex (b : UInt8) {c : Char} (h : c ∈ percentByte b) :
    c ∈ "%0123456789ABCDEF".toList := by
  have hhex : ∀ n < 16, upperHex n ∈ "%0123456789ABCDEF".toList := by decide
  have hb := b.toNat_lt
  simp only [percentByte, List.mem_cons, List.not_mem_nil, or_false] at h
  obtain rfl | rfl | rfl := h
  · decide
  · exact hhex _ (by omega)
  · exact hhex _ (by omega)

/-- What is written for any text, if the characters that are kept are plain and those of escapes
are, too. -/
theorem isEncoded_percentEncode (hkept : ∀ c, kept c → c.toNat ≤ 127 ∧ c ≠ '%' ∧ plain c)
    (hescape : ∀ c ∈ "%0123456789ABCDEF".toList, plain c) (s : String) :
    IsEncoded plain s (String.ofList (percentEncode kept s.toList)) where
  isPlain c hc := by
    rw [String.toList_ofList, percentEncode, List.mem_flatMap] at hc
    obtain ⟨d, -, hc⟩ := hc
    by_cases hd : kept d
    · rw [if_pos hd] at hc
      obtain rfl := List.mem_singleton.1 hc
      exact (hkept c hd).2.2
    · rw [if_neg hd] at hc
      obtain ⟨b, -, hc⟩ := List.mem_flatMap.1 hc
      exact hescape c (mem_percentByte_upperHex b hc)
  decode := by
    rw [utf8_eq_flatMap, String.toList_ofList, utf8_eq_flatMap s]
    exact percentDecode_percentEncode (fun c hc ↦ ⟨(hkept c hc).1, (hkept c hc).2.1⟩) s.toList

namespace IsEncoded

variable {s encoded : String}

/-- A text is encoded as itself exactly if there is nothing to decode. -/
theorem eq_iff (h : IsEncoded plain s encoded) :
    encoded = s ↔ hasEscape (utf8 encoded) = false := by
  rw [← percentDecode_eq_self_iff, h.decode]
  constructor
  · rintro rfl
    rfl
  · intro heq
    exact (utf8_injective heq).symm

theorem ne_empty (h : IsEncoded plain s encoded) (hne : s ≠ "") : encoded ≠ "" := by
  rintro rfl
  refine hne (utf8_injective ?_)
  rw [← h.decode]
  decide +kernel

end IsEncoded

end Listing.Text
