import Listing.Options.Document
import Listing.Proofs.Bytes
import Listing.Proofs.DateText
import Listing.Proofs.Datum
import Listing.Proofs.Text
import Listing.Wire.Cell
import Listing.Wire.Parameter

namespace Listing.Wire

open Number Calendar

def momentOf (bytes : Bytes) : Moment := .ofMicros (toInt bytes)

def dateOf (bytes : Bytes) : Date := .ofDays (momentOf bytes).day

/-- Types of which every value that can be read can be written. -/
def exactTypes : List ColumnType := [.int2, .int4, .int8, .oid, .uuid, .date, .timestamp]

/-- What a parameter of a type becomes that is given what a cell was read as. -/
def echo (t : ColumnType) (d : Datum) : Option (Except EncodingProblem (Option Bytes)) :=
  (FilterValue.ofDatum? d).map (encode t)

/-- A truth value has one bit, and a moment with an offset a year of four digits. -/
structure IsEchoed (t : ColumnType) (bytes : Bytes) : Prop where
  bit : t = .bool → bytes = [0] ∨ bytes = [1]
  year : t = .timestamptz → 0 ≤ (dateOf bytes).year ∧ (dateOf bytes).year ≤ 9999

variable {t : ColumnType} {bytes : Bytes} {d : Datum}

theorem readText?_eq_some_iff {s : String} :
    readText? bytes = some (.text s) ↔ bytes = Text.utf8 s := by
  simp [readText?, Text.ofUtf8?_eq_some_iff]

theorem readTree?_eq_some_iff {s : String} :
    readTree? bytes = some (.text s) ↔ bytes = treeVersion :: Text.utf8 s := by
  cases bytes with
  | nil => simp [readTree?]
  | cons version bytes =>
    rw [readTree?]
    by_cases hversion : version = treeVersion
    · rw [if_pos hversion, readText?_eq_some_iff]
      simp [hversion]
    · simp [hversion]

/-- A cell of another type can always be read, and as a text exactly if its type is known by name
to have texts for values and this is one. -/
theorem read?_other (n : String) (bytes : Bytes) :
    (ColumnType.other n).read? (some bytes) ≠ none ∧
      ∀ s, (ColumnType.other n).read? (some bytes) = some (.text s) ↔
        n ∈ treeTypes ∧ bytes = treeVersion :: Text.utf8 s ∨
          n = "citext" ∧ bytes = Text.utf8 s := by
  have hread : (ColumnType.other n).read? (some bytes) =
      some ((readNamed? n bytes).getD .null) := by
    cases h : readNamed? n bytes <;> simp [ColumnType.read?, ColumnKind.read?, h]
  have htext (s : String) : (readNamed? n bytes).getD .null = .text s ↔
      readNamed? n bytes = some (.text s) := by
    cases readNamed? n bytes <;> simp
  have hnot : "citext" ∉ treeTypes := by decide
  refine ⟨by simp [hread], fun s ↦ ?_⟩
  rw [hread, Option.some_inj, htext, readNamed?]
  by_cases htree : n ∈ treeTypes
  · have hne : n ≠ "citext" := fun h ↦ hnot (h ▸ htree)
    simp [htree, hne, readTree?_eq_some_iff]
  · by_cases hci : n = "citext"
    · simp [hci, hnot, readText?_eq_some_iff]
    · simp [htree, hci]

theorem echo_bool_iff (h : ColumnKind.read? .bool bytes = some d) :
    echo .bool d = some (.ok (some bytes)) ↔ bytes = [0] ∨ bytes = [1] := by
  obtain ⟨n, hn, rfl⟩ := Option.map_eq_some_iff.1 h
  obtain ⟨hlength, rfl⟩ := nat?_eq_some hn
  obtain ⟨b, rfl⟩ := List.length_eq_one_iff.1 hlength
  have hvalue : toNat [b] = b.toNat := by simp [toNat]
  have hecho : echo .bool (.bool (toNat [b] ≠ 0)) =
      some (.ok (some [if b.toNat = 0 then 0 else 1])) := by
    rw [hvalue]
    by_cases hb : b.toNat = 0 <;> simp [echo, FilterValue.ofDatum?, encode, encodeBool, hb]
  rw [hecho]
  simp only [Option.some.injEq, Except.ok.injEq, List.cons.injEq, and_true]
  by_cases hb : b.toNat = 0
  · obtain rfl : b = 0 := UInt8.toNat_inj.1 hb
    simp
  · have hne : b ≠ 0 := fun he ↦ hb (he ▸ rfl)
    simp [hb, hne, eq_comm]

theorem echo_int {i : Int} (h : i ≤ maxLong) :
    echo t (.int i) = some ((encodeInt t i).map some) := by
  rw [echo, FilterValue.ofDatum?, if_pos h]
  rfl

theorem echo_readInt {width : Nat} {low high : Int} (h : readInt? width bytes = some d)
    (hencode : ∀ i, encodeInt t i = encodeRanged width low high i)
    (hlow : 2 * low ≤ -(256 ^ width)) (hhigh : 256 ^ width ≤ 2 * (high + 1))
    (hlong : 256 ^ width ≤ 2 * (maxLong + 1)) : echo t d = some (.ok (some bytes)) := by
  obtain ⟨i, hi, rfl⟩ := Option.map_eq_some_iff.1 h
  obtain ⟨rfl, rfl⟩ := int?_eq_some hi
  obtain ⟨hleast, hgreatest⟩ := toInt_range bytes
  have hranged : encodeRanged bytes.length low high (toInt bytes) = .ok bytes := by
    rw [encodeRanged, if_neg (by omega), if_neg (by omega), ofInt_toInt]
  rw [echo_int (by omega), hencode, hranged]
  rfl

theorem echo_readLong (h : readInt? 8 bytes = some d) : echo .int8 d = some (.ok (some bytes)) := by
  obtain ⟨i, hi, rfl⟩ := Option.map_eq_some_iff.1 h
  obtain ⟨hlength, rfl⟩ := int?_eq_some hi
  obtain ⟨-, hgreatest⟩ := toInt_range bytes
  rw [hlength] at hgreatest
  have hbytes : encodeInt .int8 (toInt bytes) = .ok bytes := by
    rw [encodeInt, ← hlength, ofInt_toInt]
    all_goals simp
  rw [echo_int (by rw [maxLong]; omega), hbytes]
  rfl

theorem echo_oid (h : ColumnKind.read? .oid bytes = some d) :
    echo .oid d = some (.ok (some bytes)) := by
  obtain ⟨i, hi, rfl⟩ := Option.map_eq_some_iff.1 h
  obtain ⟨n, hn, hi⟩ := Option.bind_eq_some_iff.1 hi
  obtain rfl := Option.some.inj hi
  obtain ⟨hlength, rfl⟩ := nat?_eq_some hn
  have hlt := natCast_toNat_lt bytes
  rw [hlength] at hlt
  have hmod : (toNat bytes : Int) % 256 ^ 4 = toNat bytes := Int.emod_eq_of_lt (by omega) hlt
  have hbytes : encodeInt .oid (toNat bytes) = .ok bytes := by
    rw [encodeInt, encodeRanged, if_neg (by omega), if_neg (by rw [maxOid]; omega), ofInt, hmod,
      Int.toNat_natCast, ← hlength, ofNat_toNat]
  rw [echo_int (by rw [maxLong]; omega), hbytes]
  rfl

theorem echo_text (s : String) : echo t (.text s) = some ((encodeText t s).map some) := rfl

theorem echo_uuid (h : ColumnKind.read? .uuid bytes = some d) :
    echo .uuid d = some (.ok (some bytes)) := by
  obtain ⟨hlength, h⟩ := Option.ite_none_right_eq_some.1 h
  obtain rfl := Option.some.inj h
  rw [echo_text, encodeText, Uuid.ofText?_text hlength]
  rfl

theorem encode_moment {measure : Moment → Bytes} {s : String} {m : Moment}
    (h : momentOf? s = some m) : readMoment measure s = .ok (measure m) := by
  rw [readMoment, h]

theorem echo_date (h : ColumnKind.read? .date bytes = some d) :
    echo .date d = some (.ok (some bytes)) := by
  obtain ⟨days, hdays, h⟩ := Option.bind_eq_some_iff.1 h
  obtain ⟨date, hdate, rfl⟩ := Option.map_eq_some_iff.1 h
  obtain ⟨hlength, rfl⟩ := int?_eq_some hdays
  obtain ⟨rfl, -⟩ := Date.ofDays?_eq_some hdate
  have hday : (Moment.ofDate (Date.ofDays (toInt bytes))).day = toInt bytes :=
    Date.toDays_ofDays _
  have hmoment := momentOf?_text (Date.date?_of_ofDays? hdate)
  rw [echo_text, encodeText, encode_moment hmoment, hday, ← hlength, ofInt_toInt]
  rfl

theorem isValid_momentOf (bytes : Bytes) : (momentOf bytes).time.IsValid :=
  ⟨Moment.second_ofMicros _, Moment.nano_ofMicros _⟩

theorem readMoment?_eq_some {z : String} (h : readMoment? z bytes = some d) : bytes.length = 8 ∧
    date? (dateOf bytes).year (dateOf bytes).month (dateOf bytes).day = some (dateOf bytes) ∧
      d = .text (momentText (dateOf bytes) (momentOf bytes).time z) := by
  obtain ⟨micros, hmicros, h⟩ := Option.bind_eq_some_iff.1 h
  obtain ⟨s, hs, h⟩ := Option.bind_eq_some_iff.1 h
  obtain ⟨date, hdate, rfl⟩ := Option.map_eq_some_iff.1 hs
  obtain ⟨hlength, rfl⟩ := int?_eq_some hmicros
  obtain ⟨rfl, -⟩ := Date.ofDays?_eq_some hdate
  exact ⟨hlength, Date.date?_of_ofDays? hdate, (Option.some.inj h).symm⟩

theorem ofInt_toMicros (hlength : bytes.length = 8) :
    ofInt 8 (Moment.toMicros ⟨(dateOf bytes).toDays, (momentOf bytes).time⟩) = bytes := by
  rw [dateOf, Date.toDays_ofDays, ← hlength]
  exact (congrArg (ofInt bytes.length) (Moment.toMicros_ofMicros _)).trans (ofInt_toInt bytes)

theorem echo_timestamp (h : ColumnKind.read? .timestamp bytes = some d) :
    echo .timestamp d = some (.ok (some bytes)) := by
  obtain ⟨hlength, hdate, rfl⟩ := readMoment?_eq_some h
  have hmoment := momentOf?_local hdate (isValid_momentOf bytes)
  rw [echo_text, encodeText, encode_moment hmoment, ofInt_toMicros hlength]
  rfl

theorem echo_timestamptz (h : ColumnKind.read? .timestampUtc bytes = some d) :
    ∃ s, d = .text s ∧ echo .timestamptz d =
      if 0 ≤ (dateOf bytes).year ∧ (dateOf bytes).year ≤ 9999 then some (.ok (some bytes))
      else some (.error (.notMoment s)) := by
  obtain ⟨hlength, hdate, rfl⟩ := readMoment?_eq_some h
  have hmoment := momentOf?_utc hdate (isValid_momentOf bytes)
  refine ⟨_, rfl, ?_⟩
  rw [echo_text, encodeText, readUtc_eq]
  by_cases hyear : 0 ≤ (dateOf bytes).year ∧ (dateOf bytes).year ≤ 9999
  · rw [if_pos hyear] at hmoment ⊢
    rw [encode_moment hmoment, ofInt_toMicros hlength]
    rfl
  · rw [if_neg hyear] at hmoment ⊢
    rw [readMoment, hmoment]
    rfl

theorem echo_exact (ht : t ∈ exactTypes) (h : t.read? (some bytes) = some d) :
    echo t d = some (.ok (some bytes)) := by
  cases t with
  | int2 => exact echo_readInt h (fun _ ↦ rfl) (by decide) (by decide) (by decide)
  | int4 => exact echo_readInt h (fun _ ↦ rfl) (by decide) (by decide) (by decide)
  | int8 => exact echo_readLong h
  | oid => exact echo_oid h
  | uuid => exact echo_uuid h
  | date => exact echo_date h
  | timestamp => exact echo_timestamp h
  | _ => simp [exactTypes] at ht

/-- Exactly such cells are written as they were read. A moment with an offset in another year is
refused as no moment. -/
theorem echo_iff_isEchoed (ht : t ∈ .bool :: .timestamptz :: exactTypes)
    (h : t.read? (some bytes) = some d) :
    (echo t d = some (.ok (some bytes)) ↔ IsEchoed t bytes) ∧
      (t = .timestamptz → ¬IsEchoed t bytes →
        ∃ s, d = .text s ∧ echo t d = some (.error (.notMoment s))) := by
  obtain rfl | ht := List.mem_cons.1 ht
  · rw [echo_bool_iff h]
    exact ⟨⟨fun hbit ↦ ⟨fun _ ↦ hbit, nofun⟩, fun hecho ↦ hecho.bit rfl⟩, nofun⟩
  obtain rfl | ht := List.mem_cons.1 ht
  · obtain ⟨s, rfl, hecho⟩ := echo_timestamptz h
    rw [hecho]
    by_cases hyear : 0 ≤ (dateOf bytes).year ∧ (dateOf bytes).year ≤ 9999
    · rw [if_pos hyear]
      have hechoed : IsEchoed .timestamptz bytes := ⟨nofun, fun _ ↦ hyear⟩
      exact ⟨iff_of_true rfl hechoed, fun _ hfar ↦ absurd hechoed hfar⟩
    · rw [if_neg hyear]
      have hfar : ¬IsEchoed .timestamptz bytes := fun hechoed ↦ hyear (hechoed.year rfl)
      exact ⟨iff_of_false nofun hfar, fun _ _ ↦ ⟨s, rfl, rfl⟩⟩
  · have hother : t ≠ .bool ∧ t ≠ .timestamptz := by
      constructor <;> rintro rfl <;> simp [exactTypes] at ht
    refine ⟨iff_of_true (echo_exact ht h) ⟨?_, ?_⟩, fun hmoment ↦ absurd hmoment hother.2⟩
    · exact fun hbool ↦ absurd hbool hother.1
    · exact fun hmoment ↦ absurd hmoment hother.2

def leapMoment : Bytes := [0x00, 0x02, 0xb5, 0x8c, 0xd1, 0x9b, 0xde, 0xc0]

theorem echo_iff_isEchoed_leapMoment :
    ColumnType.read? .timestamptz (some leapMoment) =
      some (.text "2024-02-29T23:59:30.123456+00:00") ∧
    echo .timestamptz (.text "2024-02-29T23:59:30.123456+00:00") =
      some (.ok (some leapMoment)) := by
  have hread : ColumnType.read? .timestamptz (some leapMoment) =
      some (.text "2024-02-29T23:59:30.123456+00:00") := by decide +kernel
  have hyear : IsEchoed .timestamptz leapMoment := ⟨nofun, fun _ ↦ by decide⟩
  exact ⟨hread, (echo_iff_isEchoed (by decide) hread).1.2 hyear⟩

def farMoment : Bytes := [0x03, 0x80, 0xe7, 0x0b, 0x91, 0x3b, 0x80, 0x00]

/-- The first moment of the year 10000 is found again without an offset, but not with one. -/
theorem echo_farMoment :
    ColumnType.read? .timestamptz (some farMoment) = some (.text "+10000-01-01T00:00:00+00:00") ∧
    echo .timestamptz (.text "+10000-01-01T00:00:00+00:00") =
      some (.error (.notMoment "+10000-01-01T00:00:00+00:00")) ∧
    ColumnType.read? .timestamp (some farMoment) = some (.text "+10000-01-01T00:00:00") ∧
    echo .timestamp (.text "+10000-01-01T00:00:00") = some (.ok (some farMoment)) := by
  decide +kernel

end Listing.Wire
