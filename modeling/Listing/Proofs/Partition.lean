import Listing.Proofs.Hydration

namespace Listing

namespace Shape

theorem key_graft (name : String) (child : Shape) (names : List String) (s : Shape) :
    (graft name child names s).key = s.key := by
  obtain ⟨columns, key, many, children⟩ := s
  cases names with
  | nil => rfl
  | cons first rest => rfl

theorem key_ofPlan (p : Plan) : (ofPlan p).key = p.primaryKey := by
  have run (joins : List Join) (s : Shape) : (joins.foldl addJoin s).key = s.key := by
    induction joins generalizing s with
    | nil => rfl
    | cons j joins ih => exact (ih _).trans (key_graft _ _ _ s)
  exact run p.joins _

end Shape

namespace Plan

variable {p : Plan} {rows : List Row}

/-- What a row has in the columns of the root key, null where it has nothing. -/
def keyData (p : Plan) (row : Row) : List Datum := p.primaryKey.map (cell row)

/-- The rows of each record. -/
def recordRows (p : Plan) (rows : List Row) : List (List Row) :=
  if p.hasToMany then (Groups.ofRows p.primaryKey false rows).toLists
  else rows.map fun row ↦ [row]

def rowsWith (p : Plan) (key : List Datum) (rows : List Row) : List Row :=
  rows.filter fun row ↦ p.keyData row == key

/-- Every row goes into one record, rows with one root key into the same, and a record depends on
nothing but its own rows. -/
structure IsolatesRoots (p : Plan) (rows : List Row) : Prop where
  built : p.records rows =
    (p.recordRows rows).map fun group ↦ .table ((Shape.ofPlan p).record group)
  kept : (p.recordRows rows).flatten.Perm rows
  together : ∀ row ∈ rows, ∀ row' ∈ rows,
    (∃ group ∈ p.recordRows rows, row ∈ group ∧ row' ∈ group) ↔ p.keyData row = p.keyData row'
  alone : ∀ row ∈ rows, ∃ record, p.records (p.rowsWith (p.keyData row) rows) = [record]
  /-- The distinct keys come in the order in which they first occur. -/
  records : p.records rows =
    (rows.map p.keyData).eraseDups.flatMap fun key ↦ p.records (p.rowsWith key rows)

theorem records_eq_map (p : Plan) (rows : List Row) : p.records rows =
    (p.recordRows rows).map fun group ↦ .table ((Shape.ofPlan p).record group) := by
  rw [records, Shape.records, Shape.key_ofPlan, recordRows]
  split
  · rw [List.map_map]
    rfl
  · rw [List.map_map, List.map_map]
    rfl

theorem recordRows_eq_of_text (hmany : p.hasToMany) (rows : List Row) : p.recordRows rows =
    (rows.map (Groups.keyText p.primaryKey)).eraseDups.map fun key ↦
      rows.filter fun row ↦ Groups.keyText p.primaryKey row == key := by
  have hall : rows.filter (Groups.isGrouped p.primaryKey false) = rows :=
    List.filter_eq_self.2 fun _ _ ↦ rfl
  rw [recordRows, if_pos hmany, Groups.toLists_ofRows, hall]

theorem keyText_eq (p : Plan) (row : Row) :
    Groups.keyText p.primaryKey row = Json.render (.list (p.keyData row)) := rfl

/-- Rows with one root key become one record, whatever is in the key. -/
theorem recordRows_of_same (hmany : p.hasToMany) (hne : rows ≠ []) {key : List Datum}
    (hkey : ∀ row ∈ rows, p.keyData row = key) : p.recordRows rows = [rows] := by
  have htext : ∀ row ∈ rows, Groups.keyText p.primaryKey row = Json.render (.list key) :=
    fun row hrow ↦ by rw [keyText_eq, hkey row hrow]
  have hone : (rows.map (Groups.keyText p.primaryKey)).eraseDups = [Json.render (.list key)] := by
    refine eraseDups_of_same (by simpa using hne) fun text hmem ↦ ?_
    obtain ⟨row, hrow, rfl⟩ := List.mem_map.1 hmem
    exact htext row hrow
  rw [recordRows_eq_of_text hmany, hone, List.map_singleton]
  congr 1
  exact List.filter_eq_self.2 fun row hrow ↦ beq_iff_eq.2 (htext row hrow)

theorem render_keyData_injOn (hexact : ∀ row ∈ rows, ∀ d ∈ p.keyData row, d.isExact) :
    ∀ key ∈ rows.map p.keyData, ∀ key' ∈ rows.map p.keyData,
      Json.render (.list key) = Json.render (.list key') → key = key' := by
  have hlist : ∀ key ∈ rows.map p.keyData, (Datum.list key).isExact := by
    intro key hkey
    obtain ⟨row, hrow, rfl⟩ := List.mem_map.1 hkey
    rw [Datum.isExact, Datum.allExact_iff]
    exact hexact row hrow
  exact fun key hkey key' hkey' h ↦
    Datum.list.inj (Json.render_injective (hlist key hkey) (hlist key' hkey') h)

/-- Where texts tell keys apart, rows are grouped by the keys themselves. -/
theorem recordRows_eq (hmany : p.hasToMany)
    (hexact : ∀ row ∈ rows, ∀ d ∈ p.keyData row, d.isExact) :
    p.recordRows rows = (rows.map p.keyData).eraseDups.map (p.rowsWith · rows) := by
  have hinj := render_keyData_injOn hexact
  have htexts : rows.map (Groups.keyText p.primaryKey) =
      (rows.map p.keyData).map fun key ↦ Json.render (.list key) := by
    rw [List.map_map]
    rfl
  rw [recordRows_eq_of_text hmany, htexts, eraseDups_map_of_injOn hinj, List.map_map]
  refine List.map_congr_left fun key hkey ↦ List.filter_congr fun row hrow ↦ ?_
  rw [Bool.eq_iff_iff, beq_iff_eq, beq_iff_eq, keyText_eq]
  refine ⟨hinj _ (List.mem_map_of_mem hrow) _ (List.mem_eraseDups.1 hkey), ?_⟩
  rintro rfl
  rfl

theorem mem_rowsWith {key : List Datum} {row : Row} :
    row ∈ p.rowsWith key rows ↔ row ∈ rows ∧ p.keyData row = key := by
  rw [rowsWith, List.mem_filter, beq_iff_eq]

theorem records_rowsWith (hmany : p.hasToMany) {key : List Datum}
    (hkey : key ∈ rows.map p.keyData) : p.records (p.rowsWith key rows) =
      [.table ((Shape.ofPlan p).record (p.rowsWith key rows))] := by
  obtain ⟨row, hrow, rfl⟩ := List.mem_map.1 hkey
  have hne : p.rowsWith (p.keyData row) rows ≠ [] :=
    List.ne_nil_of_mem (mem_rowsWith.2 ⟨hrow, rfl⟩)
  rw [records_eq_map, recordRows_of_same hmany hne fun r hr ↦ (mem_rowsWith.1 hr).2,
    List.map_singleton]

/-- Under a join to many, and without floats in the root keys, the rows of different roots are kept
apart, in whatever way they are mixed. -/
theorem isolatesRoots_of_isExact (hmany : p.hasToMany)
    (hexact : ∀ row ∈ rows, ∀ d ∈ p.keyData row, d.isExact) : p.IsolatesRoots rows := by
  have hgroups := recordRows_eq hmany hexact
  have hkeys (row : Row) (hrow : row ∈ rows) : p.keyData row ∈ (rows.map p.keyData).eraseDups :=
    List.mem_eraseDups.2 (List.mem_map_of_mem hrow)
  refine ⟨p.records_eq_map rows, ?_, ?_, ?_, ?_⟩
  · rw [hgroups, ← List.flatMap_def]
    exact flatMap_filter_perm (nodup_eraseDups _) hkeys
  · intro row hrow row' hrow'
    simp only [hgroups, List.mem_map]
    constructor
    · rintro ⟨_, ⟨key, -, rfl⟩, hmem, hmem'⟩
      rw [(mem_rowsWith.1 hmem).2, (mem_rowsWith.1 hmem').2]
    · intro hsame
      refine ⟨_, ⟨_, hkeys row hrow, rfl⟩, mem_rowsWith.2 ⟨hrow, rfl⟩, ?_⟩
      exact mem_rowsWith.2 ⟨hrow', hsame.symm⟩
  · exact fun row hrow ↦ ⟨_, records_rowsWith hmany (List.mem_map_of_mem hrow)⟩
  · rw [records_eq_map, hgroups, List.map_map, List.map_eq_flatMap]
    exact List.flatMap_congr fun key hkey ↦
      (records_rowsWith hmany (List.mem_eraseDups.1 hkey)).symm

def twiceKeyed : Plan := { paid with primaryKey := ["id", "amount"] }

def mixedRows : List Row :=
  [[("id", .text "1\",\"2"), ("amount", .text "3"), ("tags.id", .int 10)],
   [("id", .text "1"), ("amount", .text "2\",\"3"), ("tags.id", .int 11)],
   [("id", .text "1"), ("tags.id", .int 12)],
   [("id", .text "1\",\"2"), ("amount", .text "3"), ("tags.id", .int 13)],
   [("id", .text "1"), ("amount", .null), ("tags.id", .int 14)]]

theorem isolatesRoots_of_isExact_mixed : twiceKeyed.hasToMany ∧
    (∀ row ∈ mixedRows, ∀ d ∈ twiceKeyed.keyData row, d.isExact) ∧
      twiceKeyed.IsolatesRoots mixedRows ∧ (twiceKeyed.records mixedRows).length = 3 := by
  have hexact : ∀ row ∈ mixedRows, ∀ d ∈ twiceKeyed.keyData row, d.isExact := by decide
  have hisolates := isolatesRoots_of_isExact (p := twiceKeyed) rfl hexact
  refine ⟨rfl, hexact, hisolates, ?_⟩
  rw [hisolates.built]
  decide +kernel

end Plan

end Listing
