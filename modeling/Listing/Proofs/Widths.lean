import Listing.Proofs.Bytes
import Listing.Wire.Parameter

namespace Listing.Wire

open Number

theorem length_of_bytesOfHex? {cs : List Char} {bytes : Bytes} (h : bytesOfHex? cs = some bytes) :
    cs.length = 2 * bytes.length := by
  fun_induction bytesOfHex? cs generalizing bytes with
  | case1 =>
    obtain rfl := Option.some.inj h
    rfl
  | case2 a b cs ih =>
    obtain ⟨high, -, h⟩ := Option.bind_eq_some_iff.1 h
    obtain ⟨low, -, h⟩ := Option.bind_eq_some_iff.1 h
    obtain ⟨rest, hrest, h⟩ := Option.bind_eq_some_iff.1 h
    obtain rfl := Option.some.inj h
    simp only [List.length_cons, ih hrest]
    omega
  | case3 => simp at h

namespace Uuid

theorem length_of_unhyphenate? {lengths : List Nat} {cs digits : List Char}
    (h : unhyphenate? lengths cs = some digits) :
    cs.length = digits.length + (lengths.length - 1) := by
  fun_induction unhyphenate? lengths cs generalizing digits with
  | case1 n m lengths cs rest hdrop ih =>
    obtain ⟨digits, hdigits, rfl⟩ := Option.map_eq_some_iff.1 h
    have hlength := congrArg List.length hdrop
    have hrest := ih hdigits
    simp only [List.length_drop, List.length_cons, List.length_append, List.length_take,
      Nat.add_sub_cancel] at hlength hrest ⊢
    omega
  | case2 => simp at h
  | case3 lengths cs hshort =>
    obtain rfl := Option.some.inj h
    match lengths with
    | [] | [_] => rfl
    | n :: m :: lengths => exact (hshort n m lengths rfl).elim

theorem length_of_readHyphenated {cs : List Char} {bytes : Bytes}
    (h : readHyphenated cs = some bytes) : bytes.length = 16 := by
  rw [readHyphenated] at h
  split at h
  · obtain ⟨digits, hdigits, hbytes⟩ := Option.bind_eq_some_iff.1 h
    have hlength := length_of_unhyphenate? hdigits
    have hhex := length_of_bytesOfHex? hbytes
    simp only [groupLengths, List.length_cons, List.length_nil] at hlength
    omega
  · simp at h

theorem length_of_ofText? {s : String} {bytes : Bytes} (h : ofText? s = some bytes) :
    bytes.length = 16 := by
  rw [ofText?] at h
  split at h
  · split at h
    · exact length_of_readHyphenated h
    · simp at h
  · exact length_of_readHyphenated h
  · split at h
    · have hhex := length_of_bytesOfHex? h
      omega
    · exact length_of_readHyphenated h

end Uuid

/-- How many bytes the values of a type have, for truth values, numbers, dates, moments and
identifiers. -/
def ColumnType.width? : ColumnType → Option Nat
  | .bool => some 1
  | .int2 => some 2
  | .int4 | .oid | .float4 | .date => some 4
  | .int8 | .float8 | .timestamp | .timestamptz => some 8
  | .uuid => some 16
  | _ => none

/-- The types of fixed width that a value is converted to. -/
def conversions : FilterValue → List ColumnType
  | .null | .list _ => []
  | .bool _ => [.bool]
  | .int _ => [.bool, .int2, .int4, .int8, .oid, .float4, .float8]
  | .float _ => [.int2, .int4, .int8, .float4, .float8]
  | .text _ =>
    [.bool, .int2, .int4, .int8, .float4, .float8, .uuid, .date, .timestamp, .timestamptz]

def ownBytes : FilterValue → Bytes
  | .null | .list _ => []
  | .bool b => encodeBool b
  | .int i => ofInt 8 i
  | .float x => ofNat 8 x.bits.toNat
  | .text s => Text.utf8 s

variable {t : ColumnType} {v : FilterValue} {w : Nat} {bytes : Bytes}

theorem length_of_encodeRanged {low high i : Int} (h : encodeRanged w low high i = .ok bytes) :
    bytes.length = w := by
  rw [encodeRanged] at h
  split at h
  · simp at h
  · split at h
    · simp at h
    · obtain rfl := Except.ok.inj h
      exact length_ofInt _ _

theorem length_of_readInteger {low high : Int} {s : String}
    (h : readInteger w low high s = .ok bytes) : bytes.length = w := by
  rw [readInteger] at h
  split at h
  · obtain rfl := Except.ok.inj h
    exact length_ofInt _ _
  · simp at h

theorem length_of_readFloat {f : Format} {s : String} (h : readFloat w f s = .ok bytes) :
    bytes.length = w := by
  rw [readFloat] at h
  split at h
  · obtain rfl := Except.ok.inj h
    exact length_ofNat _ _
  · simp at h

theorem length_of_readMoment {measure : Calendar.Moment → Bytes} {s : String}
    (hmeasure : ∀ m, (measure m).length = w) (h : readMoment measure s = .ok bytes) :
    bytes.length = w := by
  rw [readMoment] at h
  split at h
  · obtain rfl := Except.ok.inj h
    exact hmeasure _
  · simp at h

theorem length_of_encodeInt {i : Int} (hw : t.width? = some w) (ht : t ∈ conversions (.int i))
    (h : encodeInt t i = .ok bytes) : bytes.length = w := by
  cases t with
  | bool | int8 | float4 | float8 =>
    obtain rfl := Option.some.inj hw
    obtain rfl := Except.ok.inj h
    simp [encodeBool]
  | int2 | int4 | oid =>
    obtain rfl := Option.some.inj hw
    exact length_of_encodeRanged h
  | _ => simp [conversions] at ht

theorem length_of_encodeFloat {x : Double} (hw : t.width? = some w)
    (ht : t ∈ conversions (.float x)) (h : encodeFloat t x = .ok bytes) : bytes.length = w := by
  have hwhole (hint : ∀ i, t ∈ conversions (.int i)) (h : encodeWhole t x = .ok bytes) :
      bytes.length = w := by
    rw [encodeWhole] at h
    split at h
    · exact length_of_encodeInt hw (hint _) h
    · simp at h
  cases t with
  | float4 | float8 =>
    obtain rfl := Option.some.inj hw
    obtain rfl := Except.ok.inj h
    exact length_ofNat _ _
  | int2 | int4 | int8 => exact hwhole (fun _ ↦ by simp [conversions]) h
  | _ => simp [conversions] at ht

theorem length_of_encodeText {s : String} (hw : t.width? = some w)
    (ht : t ∈ conversions (.text s)) (h : encodeText t s = .ok bytes) : bytes.length = w := by
  cases t with
  | int2 | int4 | int8 =>
    obtain rfl := Option.some.inj hw
    exact length_of_readInteger h
  | float4 | float8 =>
    obtain rfl := Option.some.inj hw
    exact length_of_readFloat h
  | date | timestamp =>
    obtain rfl := Option.some.inj hw
    exact length_of_readMoment (fun _ ↦ length_ofInt _ _) h
  | timestamptz =>
    obtain rfl := Option.some.inj hw
    rw [encodeText, readUtc_eq] at h
    exact length_of_readMoment (fun _ ↦ length_ofInt _ _) h
  | bool =>
    obtain rfl := Option.some.inj hw
    rw [encodeText] at h
    split_ifs at h
    all_goals
      obtain rfl := Except.ok.inj h
      rfl
  | uuid =>
    obtain rfl := Option.some.inj hw
    rw [encodeText] at h
    cases hread : Uuid.ofText? s with
    | none => simp [hread] at h
    | some bytes =>
      rw [hread] at h
      obtain rfl := Except.ok.inj h
      exact Uuid.length_of_ofText? hread
  | _ => simp [conversions] at ht

theorem encode_of_not_mem_conversions (hw : t.width? = some w) (hnull : v.isNull = false)
    (hlist : v.isList = false) (ht : t ∉ conversions v) :
    encode t v = .ok (some (ownBytes v)) := by
  cases v with
  | null => simp [FilterValue.isNull] at hnull
  | list items => simp [FilterValue.isList] at hlist
  | bool b =>
    cases t with
    | int2 | int4 | int8 | oid | float4 | float8 | uuid | date | timestamp | timestamptz => rfl
    | bool => simp [conversions] at ht
    | _ => simp [ColumnType.width?] at hw
  | int i =>
    cases t with
    | uuid | date | timestamp | timestamptz => rfl
    | bool | int2 | int4 | int8 | oid | float4 | float8 => simp [conversions] at ht
    | _ => simp [ColumnType.width?] at hw
  | float x =>
    cases t with
    | bool | oid | uuid | date | timestamp | timestamptz => rfl
    | int2 | int4 | int8 | float4 | float8 => simp [conversions] at ht
    | _ => simp [ColumnType.width?] at hw
  | text s =>
    cases t with
    | oid => rfl
    | bool | int2 | int4 | int8 | float4 | float8 | uuid | date | timestamp | timestamptz =>
      simp [conversions] at ht
    | _ => simp [ColumnType.width?] at hw

theorem length_of_mem_conversions {b : Option Bytes} (hw : t.width? = some w)
    (ht : t ∈ conversions v) (h : encode t v = .ok b) :
    ∃ bytes, b = some bytes ∧ bytes.length = w := by
  have hmap {x : Encoding} (hx : x.map some = .ok b) (hlength : ∀ bytes, x = .ok bytes →
      bytes.length = w) : ∃ bytes, b = some bytes ∧ bytes.length = w := by
    cases x with
    | error problem => simp [Except.map] at hx
    | ok bytes => exact ⟨bytes, (Except.ok.inj hx).symm, hlength bytes rfl⟩
  cases v with
  | null | list items => simp [conversions] at ht
  | bool a =>
    obtain rfl := List.mem_singleton.1 ht
    obtain rfl := Option.some.inj hw
    exact ⟨_, (Except.ok.inj h).symm, rfl⟩
  | int i => exact hmap h fun bytes ↦ length_of_encodeInt hw ht
  | float x => exact hmap h fun bytes ↦ length_of_encodeFloat hw ht
  | text s => exact hmap h fun bytes ↦ length_of_encodeText hw ht

/-- What is written for a scalar has the width of the type if the value is converted to it. Where
there is no conversion nothing is refused: the value is written as what it is, with the width of the
type only if its own bytes happen to be as many. -/
theorem length_encode_iff (hw : t.width? = some w) (hnull : v.isNull = false)
    (hlist : v.isList = false) :
    (∀ b, encode t v = .ok b → ∃ bytes, b = some bytes ∧
      (bytes.length = w ↔ t ∈ conversions v ∨ (ownBytes v).length = w)) ∧
    (t ∉ conversions v → encode t v = .ok (some (ownBytes v))) := by
  refine ⟨fun b hb ↦ ?_, encode_of_not_mem_conversions hw hnull hlist⟩
  by_cases ht : t ∈ conversions v
  · obtain ⟨bytes, rfl, hlength⟩ := length_of_mem_conversions hw ht hb
    exact ⟨bytes, rfl, iff_of_true hlength (.inl ht)⟩
  · rw [encode_of_not_mem_conversions hw hnull hlist ht] at hb
    exact ⟨ownBytes v, (Except.ok.inj hb).symm, by simp [ht]⟩

theorem length_encode_iff_dates :
    (∃ bytes, encode .date (.text "2024-02-29") = .ok (some bytes) ∧ bytes.length = 4) ∧
      encode .date (.int 7) = .ok (some (ofInt 8 7)) := by
  have hdate : encode .date (.text "2024-02-29") = .ok (some [0, 0, 0x22, 0x79]) := by
    decide +kernel
  obtain ⟨bytes, hbytes, hlength⟩ := (length_encode_iff rfl rfl rfl).1 _ hdate
  rw [hbytes] at hdate
  exact ⟨⟨bytes, hdate, hlength.2 (.inl (by simp [conversions]))⟩,
    (length_encode_iff rfl rfl rfl).2 (by simp [conversions])⟩

def seven : Double := .ofBits 0x401C000000000000

/-- A double for a number without a sign is sent as a double, with twice the bytes, where the
integer is written in the width of the type; and a truth value for an integer is sent as a single
byte. -/
theorem encode_unconverted :
    ColumnType.width? .oid = some 4 ∧
    (∃ bytes, encode .oid (.float seven) = .ok (some bytes) ∧ bytes.length = 8) ∧
    encode .oid (.int 7) = .ok (some [0, 0, 0, 7]) ∧
    ColumnType.width? .int4 = some 4 ∧ encode .int4 (.bool true) = .ok (some [1]) := by
  have hfloat : encode .oid (.float seven) = .ok (some [0x40, 0x1C, 0, 0, 0, 0, 0, 0]) := by
    decide +kernel
  refine ⟨rfl, ⟨_, hfloat, rfl⟩, ?_⟩
  decide +kernel

end Listing.Wire
