import Listing.Proofs.Partition
import Listing.Proofs.Selection

namespace Listing

/-- A row before anything is selected from it: what each column of each table holds. -/
abbrev JoinedRow (α : Type) := ColumnRef → α

namespace Plan

/-- What the outputs of a plan make of a joined row. -/
def resultRow (p : Plan) (r : JoinedRow Datum) : Row :=
  Keyed.ofEntries (p.select.map fun c ↦ (c.output, r c.column))

/-- The column that goes by a name in the result: of outputs with one name the last one counts. -/
def columnOf? (p : Plan) (output : String) : Option ColumnRef :=
  (p.select.reverse.find? fun c ↦ c.output == output).map (·.column)

def rootKey {α : Type} (p : Plan) (r : JoinedRow α) : List α := p.rootKeys.map r

def rootKeyText (p : Plan) (r : JoinedRow Datum) : String := Json.render (.list (p.rootKey r))

/-- One record for each root key, in the order in which the keys first occur, of all rows with that
key. -/
def recordsByRoot (p : Plan) (rows : List (JoinedRow Datum)) : List Datum :=
  (rows.map p.rootKeyText).eraseDups.map fun key ↦ .table <| (Shape.ofPlan p).record <|
    (rows.filter fun r ↦ p.rootKeyText r == key).map p.resultRow

/-- The rows of different root records are built apart, whatever is in them. -/
structure KeepsRootsApart (p : Plan) : Prop where
  selected : ∀ c ∈ p.primaryKey, SelectColumn.ofRoot p.rootName c ∈ p.select
  apart : ∀ rows : List (JoinedRow Datum), p.records (rows.map p.resultRow) = p.recordsByRoot rows

variable {s : Schema} {root : Entity} {o : QueryOptions} {p : Plan} {t : AliasTable} {c : String}

theorem cell_resultRow (p : Plan) (r : JoinedRow Datum) (output : String) :
    cell (p.resultRow r) output = ((p.columnOf? output).map r).getD .null := by
  rw [cell, resultRow, Keyed.get?_ofEntries, ← List.map_reverse, Keyed.get?_map_find?, columnOf?,
    Option.map_map]
  rfl

theorem sameText_of_rootKeyText_eq {r r' : JoinedRow Datum}
    (h : p.rootKeyText r = p.rootKeyText r') : ∀ c ∈ p.rootKeys, Json.SameText (r c) (r' c) := by
  have htexts := Json.render_list_inj h
  rw [rootKey, rootKey, List.forall₂_map_left_iff, List.forall₂_map_right_iff] at htexts
  exact List.forall₂_same.1 htexts

theorem records_eq (hmany : p.hasToMany) (rows : List Row) :
    p.records rows = (rows.map (Groups.keyText p.primaryKey)).eraseDups.map fun key ↦
      .table <| (Shape.ofPlan p).record <|
        rows.filter fun row ↦ Groups.keyText p.primaryKey row == key := by
  rw [records_eq_map, recordRows_eq_of_text hmany, List.map_map]
  rfl

theorem keyText_resultRow (h : ∀ c ∈ p.primaryKey, p.columnOf? c = some ⟨p.rootName, c⟩)
    (r : JoinedRow Datum) : Groups.keyText p.primaryKey (p.resultRow r) = p.rootKeyText r := by
  have hvalues : Groups.keyValues p.primaryKey (p.resultRow r) = p.rootKey r := by
    rw [Groups.keyValues, rootKey, rootKeys, List.map_map]
    refine List.map_congr_left fun c hc ↦ ?_
    rw [cell_resultRow, h c hc]
    rfl
  rw [Groups.keyText, hvalues, rootKeyText]

theorem records_resultRow (hmany : p.hasToMany)
    (h : ∀ c ∈ p.primaryKey, p.columnOf? c = some ⟨p.rootName, c⟩) (rows : List (JoinedRow Datum)) :
    p.records (rows.map p.resultRow) = p.recordsByRoot rows := by
  have htext : Groups.keyText p.primaryKey ∘ p.resultRow = p.rootKeyText :=
    funext (keyText_resultRow h)
  rw [records_eq hmany, recordsByRoot, List.map_map, htext]
  refine List.map_congr_left fun key _ ↦ ?_
  rw [List.filter_map]
  simp only [Function.comp_def, keyText_resultRow h]

theorem Compiled.name_ne_rootName (h : Compiled s root o p t) {j : Join} (hj : j ∈ p.joins) :
    j.name ≠ p.rootName := by
  intro hname
  have hrole := roleOf_name h.distinct hj
  rw [hname, roleOf_rootName] at hrole
  simp at hrole

theorem Compiled.eq_ofRoot (h : Compiled s root o p t) {e : SelectColumn} (he : e ∈ p.select)
    (htable : e.column.table = p.rootName) :
    ∃ c ∈ (o.planner s root).rootColumns (o.projection root), e = .ofRoot p.rootName c := by
  obtain ⟨n, hn, c, hc, rfl⟩ := h.mem_select.1 he
  cases n with
  | root => exact ⟨c, hc, rfl⟩
  | joined j => exact absurd htable (h.name_ne_rootName hn)

theorem columnOf?_eq_some {e : SelectColumn} (he : e ∈ p.select)
    (h : ∀ e' ∈ p.select, e'.output = e.output → e'.column = e.column) :
    p.columnOf? e.output = some e.column := by
  have hsome : (p.select.reverse.find? fun e' ↦ e'.output == e.output).isSome :=
    List.find?_isSome.2 ⟨e, List.mem_reverse.2 he, by simp⟩
  obtain ⟨e', he'⟩ := Option.isSome_iff_exists.1 hsome
  have hmem := List.mem_reverse.1 (List.mem_of_find?_eq_some he')
  have houtput : e'.output = e.output := by simpa using List.find?_some he'
  rw [columnOf?, he', Option.map_some, h e' hmem houtput]

theorem Compiled.eq_of_columnOf? (h : Compiled s root o p t) {output : String}
    (hcolumn : p.columnOf? output = some ⟨p.rootName, c⟩) :
    output = c ∧ c ∈ (o.planner s root).rootColumns (o.projection root) := by
  obtain ⟨e, he, hecolumn⟩ := Option.map_eq_some_iff.1 hcolumn
  have hmem := List.mem_reverse.1 (List.mem_of_find?_eq_some he)
  obtain ⟨c', hc', rfl⟩ := h.eq_ofRoot hmem (by rw [hecolumn])
  obtain rfl : c' = c := congrArg ColumnRef.column hecolumn
  have houtput : c' = output := by simpa [SelectColumn.ofRoot] using List.find?_some he
  exact ⟨houtput.symm, hc'⟩

theorem Compiled.columnOf?_eq_iff (h : Compiled s root o p t) (hc : c ∈ root.primaryKey) :
    p.columnOf? c = some ⟨p.rootName, c⟩ ↔
      root.hasColumn c ∧ ∀ j ∈ p.joins, ∀ k ∈ j.columns, (Place.joined j).output k ≠ c := by
  constructor
  · intro hcolumn
    refine ⟨JoinPlanner.hasColumn_of_mem_rootColumns (h.eq_of_columnOf? hcolumn).2, ?_⟩
    intro j hj k hk houtput
    -- the outputs of joins come after those of the root, so that the last one with the name is one
    -- of a join
    rw [columnOf?, h.select, List.reverse_append, List.find?_append] at hcolumn
    obtain ⟨e, he, hecolumn⟩ := Option.map_eq_some_iff.1 hcolumn
    rcases Option.or_eq_some_iff.1 he with hlast | ⟨hnone, -⟩
    · have hmem := List.mem_reverse.1 (List.mem_of_find?_eq_some hlast)
      obtain ⟨i, hi, hmem⟩ := List.mem_flatMap.1 hmem
      obtain ⟨k', -, rfl⟩ := List.mem_map.1 hmem
      exact h.name_ne_rootName hi (congrArg ColumnRef.table hecolumn)
    · refine List.find?_eq_none.1 hnone (.ofJoin j.path j.name k) ?_ (beq_iff_eq.2 houtput)
      exact List.mem_reverse.2 (List.mem_flatMap.2 ⟨j, hj, List.mem_map_of_mem hk⟩)
  · rintro ⟨hphysical, hjoins⟩
    refine columnOf?_eq_some (h.rootKey_mem hc hphysical) fun e he houtput ↦ ?_
    obtain ⟨n, hn, c', hc', rfl⟩ := h.mem_select.1 he
    cases n with
    | root =>
      obtain rfl : c' = c := houtput
      rfl
    | joined j => exact absurd houtput (hjoins j hn c' hc')

def marked (c : ColumnRef) : JoinedRow Datum := Function.update (fun _ ↦ .int 0) c (.int 1)

theorem rootKeyText_marked {c : ColumnRef} (hc : c ∈ p.rootKeys) :
    p.rootKeyText (fun _ ↦ .int 0) ≠ p.rootKeyText (marked c) := by
  intro htext
  have hsame := (sameText_of_rootKeyText_eq htext c hc).eq rfl (by simp [marked, Datum.isExact])
  simp [marked] at hsame

theorem Compiled.columnOf?_of_apart (h : Compiled s root o p t) (hmany : p.hasToMany)
    (hp : p.KeepsRootsApart) (hc : c ∈ p.primaryKey) : p.columnOf? c = some ⟨p.rootName, c⟩ := by
  by_contra hne
  have hkey : (⟨p.rootName, c⟩ : ColumnRef) ∈ p.rootKeys := List.mem_map_of_mem hc
  -- no name of the key goes by the column in which these rows differ
  have hcells : ∀ c' ∈ p.primaryKey, cell (p.resultRow (marked ⟨p.rootName, c⟩)) c' =
      cell (p.resultRow fun _ ↦ .int 0) c' := by
    intro c' _
    rw [cell_resultRow, cell_resultRow]
    cases hcolumn : p.columnOf? c' with
    | none => rfl
    | some e =>
      have he : e ≠ ⟨p.rootName, c⟩ := by
        rintro rfl
        exact hne ((h.eq_of_columnOf? hcolumn).1 ▸ hcolumn)
      simp [marked, he]
  have hsame : Groups.keyText p.primaryKey (p.resultRow (marked ⟨p.rootName, c⟩)) =
      Groups.keyText p.primaryKey (p.resultRow fun _ ↦ .int 0) := by
    rw [Groups.keyText, Groups.keyText, Groups.keyValues, Groups.keyValues,
      List.map_congr_left hcells]
  have hone := congrArg List.length (hp.apart [fun _ ↦ .int 0, marked ⟨p.rootName, c⟩])
  have htext := (rootKeyText_marked hkey).symm
  simp [records_eq hmany, recordsByRoot, hsame, List.eraseDups_cons, htext] at hone

theorem Compiled.keepsRootsApart_iff (h : Compiled s root o p t) (hmany : p.hasToMany) :
    p.KeepsRootsApart ↔ ∀ c ∈ root.primaryKey, root.hasColumn c ∧
      ∀ j ∈ p.joins, ∀ k ∈ j.columns, (Place.joined j).output k ≠ c := by
  have hkeys : p.KeepsRootsApart ↔ ∀ c ∈ p.primaryKey, p.columnOf? c = some ⟨p.rootName, c⟩ := by
    refine ⟨fun hp c ↦ h.columnOf?_of_apart hmany hp, fun hcolumns ↦ ⟨fun c hc ↦ ?_, ?_⟩⟩
    · obtain ⟨-, hphysical⟩ := h.eq_of_columnOf? (hcolumns c hc)
      exact h.mem_select.2 ⟨.root, trivial, c, hphysical, rfl⟩
    · exact records_resultRow hmany hcolumns
  rw [hkeys, h.primaryKey]
  exact forall₂_congr fun c hc ↦ h.columnOf?_eq_iff hc

theorem Compiled.keepsRootsApart (h : Compiled s root o p t) (hmany : p.hasToMany)
    (hroot : ∃ name, (name, root) ∈ s.entities) (hkeys : s.KeysArePhysical)
    (hdots : s.ColumnsAreDotless) : p.KeepsRootsApart := by
  refine (h.keepsRootsApart_iff hmany).2 fun c hc ↦ ?_
  obtain ⟨name, hmem⟩ := hroot
  have hphysical := hkeys name root hmem c hc
  refine ⟨hphysical, fun j _ k _ houtput ↦ hdots.not_dot_mem ⟨name, hmem⟩ hphysical ?_⟩
  rw [← houtput]
  simp [Place.output, Place.path?, Field.text]

/-- Under a join to many the root records are kept apart exactly where the columns of the root key
are physical and no joined column goes by the name of one of them. -/
theorem keepsRootsApart_iff_of_compile {name : String} (hroot : s.requireEntity name = .ok root)
    (h : compile s name o = .ok p) (hmany : p.hasToMany) :
    p.KeepsRootsApart ↔ ∀ c ∈ root.primaryKey, root.hasColumn c ∧
      ∀ j ∈ p.joins, ∀ k ∈ j.columns, (Place.joined j).output k ≠ c := by
  obtain ⟨root', t, hroot', hc⟩ := compile_ok h
  obtain rfl : root' = root := Except.ok.inj (hroot'.symm.trans hroot)
  exact hc.keepsRootsApart_iff hmany

theorem keepsRootsApart_iff_of_compile_memberNames :
    ∃ p, compile groups "Group" memberNames = .ok p ∧ p.hasToMany ∧ p.KeepsRootsApart := by
  have hplan : (compile groups "Group" memberNames).toOption.map (fun p ↦
      (p.hasToMany, p.joins.flatMap fun j ↦ j.columns.map (Place.joined j).output)) =
      some (true, ["memberships.groupId", "memberships.role", "memberships.person.name",
        "memberships.person.id"]) := by
    simp only [compile, ofChecked, JoinPlanner.plan, expand_memberNames]
    decide +kernel
  obtain ⟨p, hp, hv⟩ := exists_ok_of_map hplan
  obtain ⟨hmany, houtputs⟩ := Prod.mk.inj hv
  refine ⟨p, hp, hmany, (keepsRootsApart_iff_of_compile (by rfl) hp hmany).2 ?_⟩
  have hjoined : ∀ j ∈ p.joins, ∀ k ∈ j.columns, (Place.joined j).output k ≠ "id" := by
    intro j hj k hk houtput
    have hmem : "id" ∈ p.joins.flatMap fun j ↦ j.columns.map (Place.joined j).output :=
      List.mem_flatMap.2 ⟨j, hj, List.mem_map.2 ⟨k, hk, houtput⟩⟩
    simp [houtputs] at hmem
  intro c hc
  obtain rfl : c = "id" := List.mem_singleton.1 hc
  exact ⟨by decide, hjoined⟩

def codes : Schema :=
  .ofEntities [
    { name := "Group", table := "groups", primaryKey := ["id"]
      columns := [⟨"code", false⟩, ⟨"name", false⟩]
      relations := [⟨"members", "Member", .oneToMany, [⟨"code", "groupCode"⟩], none, none⟩]
      softDelete := none },
    { name := "Member", table := "members", primaryKey := ["id"]
      columns := [⟨"id", false⟩, ⟨"groupCode", false⟩], relations := [], softDelete := none }]

def withMembers : QueryOptions := { relations := ["members"] }

def memberOf (group : Int) (code name : String) (member : Int) : JoinedRow Datum := fun c ↦
  match c.table, c.column with
  | "group", "id" => .int group
  | "group", "name" => .text name
  | "members", "id" => .int member
  | _, _ => .text code

def twoGroups : List (JoinedRow Datum) := [memberOf 1 "A" "Ants" 11, memberOf 2 "B" "Bees" 12]

/-- Two groups become one record, which has the members of both. -/
theorem records_of_undeclared_key : codes.check = .ok () ∧
    ∃ p, compile codes "Group" withMembers = .ok p ∧ p.hasToMany ∧
      p.primaryKey = ["id"] ∧ SelectColumn.ofRoot p.rootName "id" ∉ p.select ∧
      twoGroups.map p.rootKeyText = ["[1]", "[2]"] ∧
      p.records (twoGroups.map p.resultRow) =
        [.table [("code", .text "A"), ("name", .text "Ants"), ("members", .list [
          .table [("id", .int 11), ("groupCode", .text "A")],
          .table [("id", .int 12), ("groupCode", .text "B")]])]] ∧
      ¬ p.KeepsRootsApart := by
  refine ⟨rfl, ?_⟩
  have hexpand : Path.expand withMembers.relations = ["members"] :=
    Path.expand_eq_of_ascending (by decide +kernel)
  have hplan : (compile codes "Group" withMembers).toOption.map (fun p ↦
      ([p.hasToMany, p.primaryKey == ["id"], !p.select.contains (.ofRoot p.rootName "id")],
        twoGroups.map p.rootKeyText, p.records (twoGroups.map p.resultRow))) =
      some ([true, true, true], ["[1]", "[2]"],
        [.table [("code", .text "A"), ("name", .text "Ants"), ("members", .list [
          .table [("id", .int 11), ("groupCode", .text "A")],
          .table [("id", .int 12), ("groupCode", .text "B")]])]]) := by
    simp only [compile, ofChecked, JoinPlanner.plan, hexpand]
    decide +kernel
  obtain ⟨p, hp, hv⟩ := exists_ok_of_map hplan
  simp only [Prod.mk.injEq, List.cons.injEq, and_true] at hv
  obtain ⟨⟨hmany, hkey, hselect⟩, htexts, hrecords⟩ := hv
  refine ⟨p, hp, hmany, beq_iff_eq.1 hkey, by simpa using hselect, htexts, hrecords,
    fun hapart ↦ ?_⟩
  have hone := congrArg List.length (hapart.apart twoGroups)
  rw [hrecords, recordsByRoot, htexts, List.length_map] at hone
  exact absurd hone (by decide)

end Plan

end Listing
