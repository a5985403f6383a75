import Listing.Wire.Uuid
import Mathlib.Data.List.Induction

namespace Listing.Wire

theorem toNat_lt (bytes : Bytes) : toNat bytes < 256 ^ bytes.length := by
  induction bytes using List.reverseRecOn with
  | nil => simp [toNat]
  | append_singleton bytes b ih =>
    have hb := b.toNat_lt
    rw [toNat_append, List.length_append, List.length_singleton, Nat.pow_succ]
    omega

theorem ofNat_toNat (bytes : Bytes) : ofNat bytes.length (toNat bytes) = bytes := by
  induction bytes using List.reverseRecOn with
  | nil => rfl
  | append_singleton bytes b ih =>
    have hb := b.toNat_lt
    have hfront : (256 * toNat bytes + b.toNat) / 256 = toNat bytes := by omega
    have hlast : UInt8.ofNat (256 * toNat bytes + b.toNat) = b := by
      rw [← UInt8.toNat_inj, UInt8.toNat_ofNat']
      omega
    rw [toNat_append, List.length_append, List.length_singleton, ofNat, hfront, ih, hlast]

theorem natCast_toNat_lt (bytes : Bytes) : (toNat bytes : Int) < 256 ^ bytes.length := by
  have hlt := Int.ofNat_lt.2 (toNat_lt bytes)
  rwa [Int.natCast_pow] at hlt

theorem toInt_range (bytes : Bytes) : -(256 ^ bytes.length : Int) ≤ 2 * toInt bytes ∧
    2 * toInt bytes < 256 ^ bytes.length := by
  have hlt := natCast_toNat_lt bytes
  have hpow : ((256 ^ bytes.length : Nat) : Int) = 256 ^ bytes.length := Int.natCast_pow 256 _
  simp only [toInt]
  split <;> omega

theorem ofInt_toInt (bytes : Bytes) : ofInt bytes.length (toInt bytes) = bytes := by
  have hlt := natCast_toNat_lt bytes
  have hmod : toInt bytes % 256 ^ bytes.length = toNat bytes := by
    simp only [toInt]
    split
    · exact Int.emod_eq_of_lt (by omega) hlt
    · rw [Int.sub_emod_right]
      exact Int.emod_eq_of_lt (by omega) hlt
  rw [ofInt, hmod, Int.toNat_natCast, ofNat_toNat]

theorem emod_pow_range (i : Int) (width : Nat) :
    0 ≤ i % 256 ^ width ∧ i % 256 ^ width < 256 ^ width := by
  have hpos : (0 : Int) < 256 ^ width := Int.pow_pos (by decide)
  exact ⟨Int.emod_nonneg _ (by omega), Int.emod_lt_of_pos _ hpos⟩

theorem toNat_ofInt (width : Nat) (i : Int) : (toNat (ofInt width i) : Int) = i % 256 ^ width := by
  obtain ⟨hnonneg, hlt⟩ := emod_pow_range i width
  have hpow : ((256 ^ width : Nat) : Int) = 256 ^ width := Int.natCast_pow 256 _
  rw [ofInt, toNat_ofNat, Int.natCast_emod, hpow, Int.toNat_of_nonneg hnonneg]
  exact Int.emod_eq_of_lt hnonneg hlt

theorem toInt_ofInt {width : Nat} {i : Int} (hlow : -(256 ^ width) ≤ 2 * i)
    (hhigh : 2 * i < 256 ^ width) : toInt (ofInt width i) = i := by
  have hnat := toNat_ofInt width i
  have hpow : ((256 ^ width : Nat) : Int) = 256 ^ width := Int.natCast_pow 256 _
  simp only [toInt, length_ofInt]
  by_cases hi : 0 ≤ i
  · rw [Int.emod_eq_of_lt hi (by omega)] at hnat
    rw [if_pos (by omega), hnat]
  · rw [← Int.add_emod_right, Int.emod_eq_of_lt (by omega) (by omega)] at hnat
    rw [if_neg (by omega), hnat]
    omega

theorem int?_ofInt {width : Nat} {i : Int} (hlow : -(256 ^ width) ≤ 2 * i)
    (hhigh : 2 * i < 256 ^ width) : int? width (ofInt width i) = some i := by
  rw [int?, if_pos (length_ofInt _ _), toInt_ofInt hlow hhigh]

theorem nat?_eq_some {width n : Nat} {bytes : Bytes} (h : nat? width bytes = some n) :
    bytes.length = width ∧ n = toNat bytes := by
  obtain ⟨hlength, h⟩ := Option.ite_none_right_eq_some.1 h
  exact ⟨hlength, (Option.some.inj h).symm⟩

theorem int?_eq_some {width : Nat} {i : Int} {bytes : Bytes} (h : int? width bytes = some i) :
    bytes.length = width ∧ i = toInt bytes := by
  obtain ⟨hlength, h⟩ := Option.ite_none_right_eq_some.1 h
  exact ⟨hlength, (Option.some.inj h).symm⟩

theorem hexValue?_hexDigit : ∀ n < 16, Json.hexValue? (hexDigit n) = some n := by decide

theorem bytesOfHex?_hexOfBytes (bytes : Bytes) : bytesOfHex? (hexOfBytes bytes) = some bytes := by
  induction bytes with
  | nil => rfl
  | cons b bytes ih =>
    have hb := b.toNat_lt
    have hbyte : 16 * (b.toNat / 16) + b.toNat % 16 = b.toNat := by omega
    rw [hexOfBytes, bytesOfHex?, hexValue?_hexDigit _ (by omega), hexValue?_hexDigit _ (by omega),
      ih]
    simp only [Option.bind_eq_bind, Option.bind_some, hbyte, UInt8.ofNat_toNat]

theorem length_hexOfBytes (bytes : Bytes) : (hexOfBytes bytes).length = 2 * bytes.length := by
  induction bytes with
  | nil => rfl
  | cons b bytes ih =>
    rw [hexOfBytes, List.length_cons, List.length_cons, ih, List.length_cons]
    omega

namespace Uuid

theorem unhyphenate?_append {n m : Nat} {lengths : List Nat} {front rest : List Char}
    (h : front.length = n) : unhyphenate? (n :: m :: lengths) (front ++ '-' :: rest) =
      (unhyphenate? (m :: lengths) rest).map (front ++ ·) := by
  rw [unhyphenate?, List.drop_left' h, List.take_left' h]
  rfl

def total (lengths : List Nat) : Nat := lengths.foldr (· + ·) 0

theorem total_cons (n : Nat) (lengths : List Nat) : total (n :: lengths) = n + total lengths := rfl

theorem total_le_length_drop {n : Nat} {lengths : List Nat} {cs : List Char}
    (h : total (n :: lengths) ≤ cs.length) : total lengths ≤ (cs.drop n).length := by
  rw [total_cons] at h
  rw [List.length_drop]
  omega

theorem unhyphenate?_hyphenate {lengths : List Nat} {cs : List Char}
    (h : total lengths ≤ cs.length) : unhyphenate? lengths (hyphenate lengths cs) = some cs := by
  induction lengths generalizing cs with
  | nil => rfl
  | cons n lengths ih =>
    cases lengths with
    | nil => rfl
    | cons m lengths =>
      have hfront : (cs.take n).length = n := by
        rw [total_cons] at h
        rw [List.length_take]
        omega
      rw [hyphenate, unhyphenate?_append hfront, ih (total_le_length_drop h), Option.map_some,
        List.take_append_drop]

theorem length_hyphenate {lengths : List Nat} {cs : List Char} (h : total lengths ≤ cs.length) :
    (hyphenate lengths cs).length = cs.length + (lengths.length - 1) := by
  induction lengths generalizing cs with
  | nil => rfl
  | cons n lengths ih =>
    cases lengths with
    | nil => rfl
    | cons m lengths =>
      have hlength := ih (total_le_length_drop h)
      rw [total_cons] at h
      rw [List.length_drop] at hlength
      simp only [hyphenate, List.length_append, List.length_take, List.length_cons] at hlength ⊢
      omega

theorem ofText?_of_head {s : String} (h : ∀ c ∈ s.toList.head?, c ≠ '\x7b' ∧ c ≠ 'u') :
    ofText? s =
      if s.toList.length = 32 then bytesOfHex? s.toList else readHyphenated s.toList := by
  rw [ofText?]
  split
  · next hbrace => exact absurd rfl (h '\x7b' (by rw [hbrace]; rfl)).1
  · next hurn => exact absurd rfl (h 'u' (by rw [hurn]; rfl)).2
  · rfl

theorem ofText?_text {bytes : Bytes} (h : bytes.length = 16) :
    ofText? (text bytes) = some bytes := by
  have hlength : (hexOfBytes bytes).length = 32 := by rw [length_hexOfBytes, h]
  have htotal : total groupLengths ≤ (hexOfBytes bytes).length := by rw [hlength]; decide
  have htext : (text bytes).toList = hyphenate groupLengths (hexOfBytes bytes) := by
    rw [text, String.toList_ofList]
  have hlong : (text bytes).toList.length = 36 := by
    rw [htext, length_hyphenate htotal, hlength]
    rfl
  have hhead : ∀ c ∈ (text bytes).toList.head?, c ≠ '\x7b' ∧ c ≠ 'u' := by
    obtain ⟨b, rest, rfl⟩ := List.exists_cons_of_length_pos (by omega : 0 < bytes.length)
    have hdigits : ∀ n < 16, hexDigit n ≠ '\x7b' ∧ hexDigit n ≠ 'u' := by decide
    have hb := b.toNat_lt
    intro c hc
    rw [htext] at hc
    obtain rfl := Option.some.inj hc
    exact hdigits _ (by omega)
  rw [ofText?_of_head hhead, if_neg (by omega), readHyphenated, if_pos hlong, htext,
    unhyphenate?_hyphenate htotal, Option.bind_some, bytesOfHex?_hexOfBytes]

end Uuid

end Listing.Wire
