import Listing.Proofs.Records
import Listing.Proofs.JsonText
import Listing.Proofs.Shapes

namespace Listing

/-- Every choice of one row of each list, with all their cells. -/
def product : List (List Row) → List Row
  | [] => [[]]
  | rows :: rest => rows.flatMap fun row ↦ (product rest).map (row ++ ·)

theorem product_ne_nil {factors : List (List Row)} (h : ∀ rows ∈ factors, rows ≠ []) :
    product factors ≠ [] := by
  induction factors with
  | nil => simp [product]
  | cons rows rest ih =>
    obtain ⟨row, rows', rfl⟩ := List.exists_cons_of_ne_nil (h rows List.mem_cons_self)
    have hrest := ih fun r hr ↦ h r (List.mem_cons_of_mem _ hr)
    simp [product, hrest]

theorem mem_keys_product {factors : List (List Row)} {row : Row} (hrow : row ∈ product factors)
    {o : String} (ho : o ∈ Keyed.keys row) : ∃ rows ∈ factors, ∃ r ∈ rows, o ∈ Keyed.keys r := by
  induction factors generalizing row with
  | nil =>
    obtain rfl := List.mem_singleton.1 hrow
    simp at ho
  | cons rows rest ih =>
    obtain ⟨first, hfirst, hrow⟩ := List.mem_flatMap.1 hrow
    obtain ⟨other, hother, rfl⟩ := List.mem_map.1 hrow
    rw [Keyed.keys_append, List.mem_append] at ho
    rcases ho with ho | ho
    · exact ⟨rows, List.mem_cons_self, first, hfirst, ho⟩
    · obtain ⟨rows', hrows', r, hr, ho⟩ := ih hother ho
      exact ⟨rows', List.mem_cons_of_mem _ hrows', r, hr, ho⟩

theorem length_product {factors : List (List Row)} (h : ∀ rows ∈ factors, rows.length = 1) :
    (product factors).length = 1 := by
  induction factors with
  | nil => rfl
  | cons rows rest ih =>
    obtain ⟨row, rfl⟩ := List.length_eq_one_iff.1 (h rows List.mem_cons_self)
    have hrest := ih fun r hr ↦ h r (List.mem_cons_of_mem _ hr)
    simpa [product] using hrest

theorem cell_append_left {a b : Row} {o : String} (h : o ∉ Keyed.keys b) :
    cell (a ++ b) o = cell a o := by
  have hnone : Keyed.get? b o = none := by
    rw [← Keyed.get?_isSome] at h
    simpa using h
  rw [cell, cell, Keyed.get?_append, hnone, Option.or_none]

theorem cell_append_right {a b : Row} {o : String} (h : o ∉ Keyed.keys a) :
    cell (a ++ b) o = cell b o := by
  have hnone : Keyed.get? a o = none := by
    rw [← Keyed.get?_isSome] at h
    simpa using h
  rw [cell, cell, Keyed.get?_append, hnone, Option.none_or]

theorem restrict_append_left {outputs : List String} {a b : Row}
    (h : ∀ o ∈ outputs, o ∉ Keyed.keys b) :
    Row.restrict outputs (a ++ b) = Row.restrict outputs a :=
  List.map_congr_left fun o ho ↦ by rw [cell_append_left (h o ho)]

theorem restrict_append_right {outputs : List String} {a b : Row}
    (h : ∀ o ∈ outputs, o ∉ Keyed.keys a) :
    Row.restrict outputs (a ++ b) = Row.restrict outputs b :=
  List.map_congr_left fun o ho ↦ by rw [cell_append_right (h o ho)]

/-- A product repeats the rows of each factor, and their first occurrences come in order. -/
theorem eraseDups_product {α : Type} {js : List α} (factor : α → List Row)
    (outputs : α → List String) (hne : ∀ j ∈ js, factor j ≠ [])
    (hapart : js.Pairwise fun j k ↦
      (∀ row ∈ factor k, ∀ o ∈ outputs j, o ∉ Keyed.keys row) ∧
      ∀ row ∈ factor j, ∀ o ∈ outputs k, o ∉ Keyed.keys row) {j : α} (hj : j ∈ js) :
    ((product (js.map factor)).map (Row.restrict (outputs j))).eraseDups =
      ((factor j).map (Row.restrict (outputs j))).eraseDups := by
  induction js with
  | nil => simp at hj
  | cons k js ih =>
    obtain ⟨hk, hapart⟩ := List.pairwise_cons.1 hapart
    have hne' : ∀ i ∈ js, factor i ≠ [] := fun i hi ↦ hne i (List.mem_cons_of_mem _ hi)
    rw [List.map_cons, product, List.map_flatMap]
    simp only [List.map_map, Function.comp_def]
    rcases List.mem_cons.1 hj with rfl | hj
    · have hrest : product (js.map factor) ≠ [] := by
        refine product_ne_nil fun rows hrows ↦ ?_
        obtain ⟨i, hi, rfl⟩ := List.mem_map.1 hrows
        exact hne' i hi
      refine eraseDups_flatMap_of_blocks (by simp [hrest]) fun row hrow restricted hmem ↦ ?_
      obtain ⟨other, hother, rfl⟩ := List.mem_map.1 hmem
      refine restrict_append_left fun o ho hkeys ↦ ?_
      obtain ⟨rows, hrows, r, hr, hor⟩ := mem_keys_product hother hkeys
      obtain ⟨i, hi, rfl⟩ := List.mem_map.1 hrows
      exact (hk i hi).1 r hr o ho hor
    · have hright : ∀ row ∈ factor k, ∀ other,
          Row.restrict (outputs j) (row ++ other) = Row.restrict (outputs j) other :=
        fun row hrow other ↦ restrict_append_right ((hk j hj).2 row hrow)
      refine .trans ?_ <|
        (eraseDups_flatMap_const (hne k List.mem_cons_self) _).trans (ih hne' hapart hj)
      congr 1
      exact List.flatMap_congr fun row hrow ↦
        List.map_congr_left fun other _ ↦ hright row hrow other

/-- What there is at a place: a value for each column, and instances for each relation by name. -/
inductive Instance
  | mk (value : String → Datum) (related : String → List Instance)

def Instance.value : Instance → String → Datum
  | mk value _ => value

namespace Plan

def columnsAt (p : Plan) : Place → List String
  | .root => p.rootColumns
  | .joined j => j.columns

def keyAt (p : Plan) : Place → List String
  | .root => p.primaryKey
  | .joined j => j.primaryKey

def ownRow (p : Plan) (n : Place) (value : String → Datum) : Row :=
  (p.columnsAt n).map fun c ↦ (n.output c, value c)

def nullRow (p : Plan) (j : Join) : Row :=
  (p.joins.filter fun k ↦ k.path.passes j.path).flatMap fun k ↦
    k.columns.map fun c ↦ ((Place.joined k).output c, .null)

/-- A left join has a row also where it finds none. -/
def orNulls (p : Plan) (j : Join) (rows : List Row) : List Row :=
  if rows.isEmpty then [p.nullRow j] else rows

end Plan

namespace Instance

mutual

def rows (p : Plan) (n : Place) : Instance → List Row
  | mk value related =>
    product ([p.ownRow n value] ::
      (n.relations p.joins).map fun j ↦ p.orNulls j (joinedRows p j (related j.path.leaf)))

def joinedRows (p : Plan) (j : Join) : List Instance → List Row
  | [] => []
  | i :: is => rows p (.joined j) i ++ joinedRows p j is

end

/-- What stands for a relation: a list, or for a relation to one the only instance if there is
one. -/
def nest (kind : RelationKind) (data : List Datum) : Datum :=
  if kind.isMany then .list data else data.head?.getD .null

mutual

def fields (p : Plan) (n : Place) : Instance → Keyed Datum
  | mk value related =>
    ((p.columnsAt n).map fun c ↦ (c, value c)) ++
      (n.relations p.joins).map fun j ↦
        (j.path.leaf, nest j.kind (joinedFields p j (related j.path.leaf)))

def joinedFields (p : Plan) (j : Join) : List Instance → List Datum
  | [] => []
  | i :: is => .table (fields p (.joined j) i) :: joinedFields p j is

end

theorem joinedRows_eq (p : Plan) (j : Join) (is : List Instance) :
    joinedRows p j is = is.flatMap (rows p (.joined j)) := by
  induction is with
  | nil => rfl
  | cons i is ih => rw [joinedRows, ih, List.flatMap_cons]

theorem joinedFields_eq (p : Plan) (j : Join) (is : List Instance) :
    joinedFields p j is = is.map fun i ↦ .table (fields p (.joined j) i) := by
  induction is with
  | nil => rfl
  | cons i is ih => rw [joinedFields, ih, List.map_cons]

end Instance

def Datum.isKey : Datum → Bool
  | .int _ | .text _ | .bool _ => true
  | _ => false

namespace Datum

variable {d : Datum}

theorem isExact_of_isKey (h : d.isKey) : d.isExact := by
  cases d <;> simp_all [isKey, isExact]

theorem isNull_of_isKey (h : d.isKey) : d.isNull = false := by
  cases d <;> simp_all [isKey, isNull]

end Datum

namespace Plan

def Has (p : Plan) : Place → Prop
  | .root => True
  | .joined j => j ∈ p.joins

/-- What makes the rows of a plan tell which instances they come from. -/
structure IsReversible (p : Plan) : Prop where
  nested : IsNested p.joins
  keys : ∀ n, p.Has n → ∀ c ∈ p.keyAt n, c ∈ p.columnsAt n
  keyed : ∀ j ∈ p.joins, j.primaryKey ≠ []
  plain : ∀ j ∈ p.joins, ∀ c ∈ j.columns, '.' ∉ c.toList
  distinct : ∀ n, p.Has n → (p.columnsAt n).Nodup
  apart : ∀ n, p.Has n → ∀ j ∈ n.relations p.joins, j.path.leaf ∉ p.columnsAt n
  many : ∀ j ∈ p.joins, j.many ↔ ∃ k ∈ p.joins, j.path.passes k.path ∧ k.kind.isMany

end Plan

namespace Instance

def key (p : Plan) (n : Place) (i : Instance) : List Datum := (p.keyAt n).map i.value

/-- One instance at most for a relation to one, instances with distinct keys for one to many. -/
def Distinct (p : Plan) (j : Join) (is : List Instance) : Prop :=
  if j.kind.isMany then (is.map (key p (.joined j))).Nodup else is.length ≤ 1

instance (p : Plan) (j : Join) (is : List Instance) : Decidable (Distinct p j is) :=
  inferInstanceAs (Decidable
    (if j.kind.isMany then (is.map (key p (.joined j))).Nodup else is.length ≤ 1))

/-- An instance whose key has values, and likewise what is related to it. -/
inductive Fits (p : Plan) : Place → Instance → Prop
  | intro (n : Place) (value : String → Datum) (related : String → List Instance) :
    (∀ c ∈ p.keyAt n, (value c).isKey) →
    (∀ j ∈ n.relations p.joins, Distinct p j (related j.path.leaf)) →
    (∀ j ∈ n.relations p.joins, ∀ i ∈ related j.path.leaf, Fits p (.joined j) i) →
    Fits p n (mk value related)

mutual

def fits (p : Plan) (n : Place) : Instance → Bool
  | mk value related =>
    (p.keyAt n).all (fun c ↦ (value c).isKey) &&
      (n.relations p.joins).all fun j ↦
        decide (Distinct p j (related j.path.leaf)) && allFit p j (related j.path.leaf)

def allFit (p : Plan) (j : Join) : List Instance → Bool
  | [] => true
  | i :: is => fits p (.joined j) i && allFit p j is

end

mutual

theorem Fits.of_fits {p : Plan} {n : Place} : ∀ {i : Instance}, fits p n i → Fits p n i
  | mk value related, h => by
    simp only [fits, Bool.and_eq_true, List.all_eq_true, decide_eq_true_eq] at h
    obtain ⟨hkey, hrelations⟩ := h
    exact .intro n value related hkey (fun j hj ↦ (hrelations j hj).1) fun j hj ↦
      Fits.of_allFit (hrelations j hj).2

theorem Fits.of_allFit {p : Plan} {j : Join} :
    ∀ {is : List Instance}, allFit p j is → ∀ i ∈ is, Fits p (.joined j) i
  | [], _ => by simp
  | i :: is, h => by
    simp only [allFit, Bool.and_eq_true] at h
    intro k hk
    rcases List.mem_cons.1 hk with hki | hk
    · exact hki ▸ Fits.of_fits h.1
    · exact Fits.of_allFit h.2 k hk

end

end Instance

namespace Join

def Owns (j : Join) (o : String) : Prop :=
  ∃ q, (Field.ofText o).relation = some q ∧ Path.passes q j.path

variable {j k : Join} {n : Place} {joins : List Join} {o c : String}

theorem owns_output (hc : '.' ∉ c.toList) (h : k.path.passes j.path) :
    j.Owns ((Place.joined k).output c) :=
  ⟨k.path, by rw [Place.output, Field.ofText_text hc]; rfl, h⟩

theorem Owns.of_relation (h : k.Owns o) (hk : k ∈ (Place.joined j).relations joins) : j.Owns o := by
  obtain ⟨q, hq, hpasses⟩ := h
  refine ⟨q, hq, Path.passes_trans hpasses (Path.passes_iff.2 ?_)⟩
  rw [(Place.mem_relations.1 hk).2]
  exact List.prefix_append _ _

theorem Owns.path_eq (hj : j ∈ n.relations joins) (hk : k ∈ n.relations joins) (h : j.Owns o)
    (h' : k.Owns o) : j.path = k.path := by
  obtain ⟨q, hq, hpasses⟩ := h
  obtain ⟨q', hq', hpasses'⟩ := h'
  obtain rfl : q = q' := Option.some.inj (hq.symm.trans hq')
  apply Path.eq_of_passes hpasses hpasses'
  rw [Path.depth, (Place.mem_relations.1 hj).2, Path.depth, (Place.mem_relations.1 hk).2]
  simp

theorem not_owns_output (hj : j ∈ n.relations joins) (hc : '.' ∉ c.toList) :
    ¬ j.Owns (n.output c) := by
  rintro ⟨q, hq, hpasses⟩
  rw [Place.output, Field.ofText_text hc] at hq
  cases n with
  | root => simp [Place.path?] at hq
  | joined k =>
    obtain rfl : k.path = q := Option.some.inj hq
    have hlength := (Path.passes_iff.1 hpasses).length_le
    rw [(Place.mem_relations.1 hj).2] at hlength
    simp only [Place.segments, List.length_append, List.length_singleton] at hlength
    omega

end Join

namespace Place

theorem output_injective (n : Place) : Function.Injective n.output := by
  intro c c' h
  cases n with
  | root => exact h
  | joined j => exact String.append_right_inj _ |>.1 h

end Place

namespace Instance

variable {p : Plan} {n : Place} {i : Instance} {row : Row} {j : Join}

theorem orNulls_ne_nil (p : Plan) (j : Join) (rows : List Row) : p.orNulls j rows ≠ [] := by
  cases rows <;> simp [Plan.orNulls]

theorem rows_eq (p : Plan) (n : Place) (value : String → Datum)
    (related : String → List Instance) : rows p n (mk value related) =
      (product ((n.relations p.joins).map fun j ↦
        p.orNulls j (joinedRows p j (related j.path.leaf)))).map (p.ownRow n value ++ ·) := by
  rw [rows, product]
  simp

theorem rows_ne_nil (p : Plan) (n : Place) (i : Instance) : i.rows p n ≠ [] := by
  obtain ⟨value, related⟩ := i
  rw [rows_eq, ne_eq, List.map_eq_nil_iff]
  refine product_ne_nil fun rows hrows ↦ ?_
  obtain ⟨j, -, rfl⟩ := List.mem_map.1 hrows
  exact orNulls_ne_nil _ _ _

theorem cell_ownRow {value : String → Datum} {c : String} (hc : c ∈ p.columnsAt n) (row : Row) :
    cell (p.ownRow n value ++ row) (n.output c) = value c := by
  have hget : Keyed.get? (p.ownRow n value) (n.output c) = some (value c) :=
    Keyed.get?_map_of_mem hc fun _ _ h ↦ n.output_injective h
  rw [cell, Keyed.get?_append, hget]
  rfl

theorem cell_rows (hrow : row ∈ i.rows p n) {c : String} (hc : c ∈ p.columnsAt n) :
    cell row (n.output c) = i.value c := by
  obtain ⟨value, related⟩ := i
  rw [rows_eq] at hrow
  obtain ⟨other, -, rfl⟩ := List.mem_map.1 hrow
  exact cell_ownRow hc other

theorem keys_ownRow {value : String → Datum} {o : String}
    (ho : o ∈ Keyed.keys (p.ownRow n value)) : ∃ c ∈ p.columnsAt n, o = n.output c := by
  obtain ⟨e, he, rfl⟩ := List.mem_map.1 ho
  obtain ⟨c, hc, rfl⟩ := List.mem_map.1 he
  exact ⟨c, hc, rfl⟩

theorem owns_of_mem_nullRow (hp : p.IsReversible) {o : String}
    (ho : o ∈ Keyed.keys (p.nullRow j)) : j.Owns o := by
  obtain ⟨e, he, rfl⟩ := List.mem_map.1 ho
  obtain ⟨k, hk, he⟩ := List.mem_flatMap.1 he
  obtain ⟨c, hc, rfl⟩ := List.mem_map.1 he
  obtain ⟨hk, hpasses⟩ := List.mem_filter.1 hk
  exact Join.owns_output (hp.plain k hk c hc) hpasses

theorem owns_of_mem_orNulls (hp : p.IsReversible) {is : List Instance}
    (hrows : ∀ i ∈ is, ∀ row ∈ i.rows p (.joined j), ∀ o ∈ Keyed.keys row, j.Owns o)
    (hrow : row ∈ p.orNulls j (joinedRows p j is)) : ∀ o ∈ Keyed.keys row, j.Owns o := by
  rw [Plan.orNulls, joinedRows_eq] at hrow
  split at hrow
  · obtain rfl := List.mem_singleton.1 hrow
    exact fun o ho ↦ owns_of_mem_nullRow hp ho
  · obtain ⟨i, hi, hrow⟩ := List.mem_flatMap.1 hrow
    exact hrows i hi row hrow

theorem owns_of_mem_rows (hp : p.IsReversible) (hi : i.Fits p n) (hn : n = .joined j)
    (hj : j ∈ p.joins) : ∀ row ∈ i.rows p n, ∀ o ∈ Keyed.keys row, j.Owns o := by
  induction hi generalizing j with
  | intro n value related _ _ _ ih =>
    subst hn
    intro row hrow o ho
    rw [rows_eq] at hrow
    obtain ⟨other, hother, rfl⟩ := List.mem_map.1 hrow
    rw [Keyed.keys_append, List.mem_append] at ho
    rcases ho with ho | ho
    · obtain ⟨c, hc, rfl⟩ := keys_ownRow ho
      exact Join.owns_output (hp.plain j hj c hc) (Path.passes_refl j.path)
    · obtain ⟨rows, hrows, r, hr, ho⟩ := mem_keys_product hother ho
      obtain ⟨k, hk, rfl⟩ := List.mem_map.1 hrows
      have hkj := (Place.mem_relations.1 hk).1
      exact (owns_of_mem_orNulls hp (fun i hi ↦ ih k hk i hi rfl hkj) hr o ho).of_relation hk

end Instance

end Listing
