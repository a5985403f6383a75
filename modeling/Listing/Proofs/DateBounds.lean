import Listing.Proofs.Bindings
import Listing.Proofs.Bytes
import Listing.Proofs.Moments
import Listing.Proofs.Requests
import Listing.Proofs.Validation
import Listing.Wire.Parameter

namespace Listing

open Calendar

namespace Wire

def momentTypes : List ColumnType := [.date, .timestamp, .timestamptz]

/-- A value is written as a type, and not as a null. -/
def Binds (t : ColumnType) (v : FilterValue) : Prop := ∃ bytes, encode t v = .ok (some bytes)

def momentBytes (t : ColumnType) (m : Moment) : Bytes :=
  if t = .date then ofInt 4 m.day else ofInt 8 m.toMicros

variable {t : ColumnType} {s : String} {m : Moment}

/-- The reader of each type comes down to the same moment. -/
theorem encode_eq (ht : t ∈ momentTypes) (s : String) : encode t (.text s) =
    match momentOf? s with
    | some m => .ok (some (momentBytes t m))
    | none => .error (.notMoment s) := by
  have hread : encode t (.text s) = (readMoment (momentBytes t) s).map some := by
    simp only [momentTypes, List.mem_cons, List.not_mem_nil, or_false] at ht
    obtain rfl | rfl | rfl := ht
    · rfl
    · rfl
    · rw [encode, encodeText, readUtc_eq]
      rfl
  rw [hread, readMoment]
  cases momentOf? s <;> rfl

theorem isDateLike_eq (s : String) : isDateLike s = (momentOf? s).isSome := by
  rw [isDateLike, momentOf?]
  cases offsetOf? s <;> cases localOf? false s <;> cases localOf? true s <;>
    cases dateOf? s <;> rfl

theorem binds_iff (ht : t ∈ momentTypes) : Binds t (.text s) ↔ isDateLike s := by
  rw [Binds, encode_eq ht, isDateLike_eq]
  cases momentOf? s <;> simp

end Wire

namespace ListingRequest

open Wire

variable {config : ListingConfig} {r : ListingRequest}

def dateTexts (r : ListingRequest) : List String :=
  r.dateBounds.1.toList ++ r.dateBounds.2.toList

theorem dateFilter_eq_ok_iff {dates : Option FilterCondition} :
    r.dateFilter config = .ok dates ↔
      dates = config.dateField.bind (fun field ↦ rangeFilter (Field.ofText field) r.dateBounds) ∧
        (config.dateField.isSome → ∀ s ∈ r.dateTexts, isDateLike s) := by
  rw [dateFilter]
  cases config.dateField with
  | none =>
    constructor
    · intro h
      exact ⟨(Except.ok.inj h).symm, by simp⟩
    · intro h
      exact congrArg Except.ok h.1.symm
  | some field =>
    dsimp only
    rw [check_eq_ok, check_eq_ok, pure_eq_ok, forM_eq_ok, forM_eq_ok]
    simp only [checkDate, guardThat_eq_ok, dateTexts, List.forall_mem_append, Option.bind_some,
      Option.isSome_some, true_implies]
    rw [← and_assoc, and_comm, eq_comm]

theorem bound_rangeFilter (f : Field) : (rangeFilter f r.dateBounds).toList.flatMap
    FilterCondition.bound = r.dateTexts.map .text := by
  rw [dateTexts]
  rcases r.dateBounds with ⟨_ | low, _ | high⟩ <;> rfl

theorem bound_dateFilter {dates : Option FilterCondition} (h : r.dateFilter config = .ok dates) :
    ∀ v ∈ dates.toList.flatMap FilterCondition.bound, ∃ s, v = .text s ∧ isDateLike s := by
  obtain ⟨rfl, hdates⟩ := dateFilter_eq_ok_iff.1 h
  cases hfield : config.dateField with
  | none => simp
  | some field =>
    rw [hfield] at hdates
    rw [Option.bind_some, bound_rangeFilter]
    intro v hv
    obtain ⟨s, hs, rfl⟩ := List.mem_map.1 hv
    exact ⟨s, rfl, hdates rfl s hs⟩

end ListingRequest

theorem QueryOptions.dateFilter_of_build {s : Schema} {root : String} {r : ListingRequest}
    {config : ListingConfig} {o : QueryOptions} (h : build s root r config = .ok o) :
    ∃ dates, r.dateFilter config = .ok dates ∧ dates.toList <:+ o.filters := by
  obtain ⟨entity, -, h⟩ := bind_eq_ok.1 h
  obtain ⟨dates, hdates, h⟩ := bind_eq_ok.1 h
  obtain ⟨-, h⟩ := check_eq_ok.1 h
  obtain rfl := pure_eq_ok.1 h
  exact ⟨dates, hdates, List.suffix_append _ _⟩

namespace ListingRequest

open Wire

variable {config : ListingConfig} {r : ListingRequest}

/-- A text is accepted as a bound exactly if each of the types of dates and moments can take it. The
two types of moments get the same bytes, and nothing is cut off on the wire. So what options filter
dates by can be bound, and a range of which every bound can be bound is not refused. -/
theorem isDateLike_iff_binds (config : ListingConfig) (r : ListingRequest) :
    (∀ s, ∀ t ∈ momentTypes, (isDateLike s ↔ Binds t (.text s))) ∧
    (∀ s, encode .timestamptz (.text s) = encode .timestamp (.text s)) ∧
    (∀ s m, momentOf? s = some m →
      (∃ bytes, encode .date (.text s) = .ok (some bytes) ∧ int? 4 bytes = some m.day) ∧
      ∃ bytes, encode .timestamp (.text s) = .ok (some bytes) ∧
        int? 8 bytes = some m.toMicros) ∧
    (∀ s root o, QueryOptions.build s root r config = .ok o →
      ∃ dates, r.dateFilter config = .ok dates ∧ dates.toList <:+ o.filters ∧
        ∀ v ∈ dates.toList.flatMap FilterCondition.bound, ∀ t ∈ momentTypes, Binds t v) ∧
    ((∀ s ∈ r.dateTexts, ∃ t ∈ momentTypes, Binds t (.text s)) →
      ∃ dates, r.dateFilter config = .ok dates ∧ (config.dateField.isSome →
        dates.toList.flatMap FilterCondition.bound = r.dateTexts.map .text)) := by
  refine ⟨fun s t ht ↦ (binds_iff ht).symm, fun s ↦ ?_, fun s m hm ↦ ?_, fun s root o ho ↦ ?_,
    fun h ↦ ?_⟩
  · rw [encode_eq (by decide) s, encode_eq (by decide) s]
    rfl
  · have hbounded := momentOf?_isBounded hm
    have hbytes (t : ColumnType) (ht : t ∈ momentTypes) :
        encode t (.text s) = .ok (some (momentBytes t m)) := by rw [encode_eq ht, hm]
    refine ⟨⟨_, hbytes .date (by decide), ?_⟩, _, hbytes .timestamp (by decide), ?_⟩
    · exact int?_ofInt hbounded.day_range.1 hbounded.day_range.2
    · exact int?_ofInt hbounded.micros_range.1 hbounded.micros_range.2
  · obtain ⟨dates, hdates, hsuffix⟩ := QueryOptions.dateFilter_of_build ho
    refine ⟨dates, hdates, hsuffix, fun v hv t ht ↦ ?_⟩
    obtain ⟨text, rfl, htext⟩ := bound_dateFilter hdates v hv
    exact (binds_iff ht).2 htext
  · refine ⟨_, dateFilter_eq_ok_iff.2 ⟨rfl, fun _ s hs ↦ ?_⟩, fun hfield ↦ ?_⟩
    · obtain ⟨t, ht, hbinds⟩ := h s hs
      exact (binds_iff ht).1 hbinds
    · obtain ⟨field, hfield⟩ := Option.isSome_iff_exists.1 hfield
      rw [hfield, Option.bind_some, bound_rangeFilter]

def leapRange : ListingRequest :=
  { startDate := some " 2016-12-31T23:59:60.5+01:30", endDate := some "2024-02-29" }

theorem isDateLike_iff_binds_leapRange :
    leapRange.dateTexts = ["2016-12-31T23:59:60.5+01:30", "2024-02-29"] ∧
    (∃ bytes, encode .timestamp (.text "2016-12-31T23:59:60.5+01:30") = .ok (some bytes) ∧
      int? 8 bytes = some 536538600500000) ∧
    Binds .timestamptz (.text "2024-02-29") ∧
    (∃ (o : QueryOptions) (dates : Option FilterCondition), dates.toList <:+ o.filters ∧
      QueryOptions.build QueryOptions.orders "Order" leapRange QueryOptions.orderListing = .ok o ∧
        ∀ v ∈ dates.toList.flatMap FilterCondition.bound, Binds .date v) ∧
    ∃ dates, leapRange.dateFilter QueryOptions.orderListing = .ok dates ∧
      dates.toList.flatMap FilterCondition.bound =
        [.text "2016-12-31T23:59:60.5+01:30", .text "2024-02-29"] := by
  have htexts : leapRange.dateTexts = ["2016-12-31T23:59:60.5+01:30", "2024-02-29"] := by
    decide +kernel
  have hmoment : momentOf? "2016-12-31T23:59:60.5+01:30" = some ⟨6209, 80999, 1500000000⟩ := by
    decide +kernel
  obtain ⟨hlike, -, hexact, hbuild, hrange⟩ :=
    isDateLike_iff_binds QueryOptions.orderListing leapRange
  have hbinds : ∀ s ∈ leapRange.dateTexts, Binds .timestamptz (.text s) := by
    have hdates : ∀ s ∈ leapRange.dateTexts, isDateLike s := by
      rw [htexts]
      decide +kernel
    exact fun s hs ↦ (hlike s .timestamptz (by decide)).1 (hdates s hs)
  obtain ⟨o, ho, -⟩ : ∃ o, QueryOptions.build QueryOptions.orders "Order" leapRange
      QueryOptions.orderListing = .ok o ∧ o.filters.length = 1 :=
    exists_ok_of_map (by decide +kernel)
  obtain ⟨dates, -, hsuffix, hbound⟩ := hbuild _ _ _ ho
  obtain ⟨range, hok, htaken⟩ := hrange fun s hs ↦ ⟨_, by decide, hbinds s hs⟩
  rw [htexts] at htaken
  exact ⟨htexts, (hexact _ _ hmoment).2, hbinds _ (by rw [htexts]; simp),
    ⟨o, dates, hsuffix, ho, fun v hv ↦ hbound v hv .date (by decide)⟩, range, hok, htaken rfl⟩

end ListingRequest

end Listing
