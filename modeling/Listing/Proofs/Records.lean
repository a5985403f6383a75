import Listing.Proofs.Datum
import Listing.Proofs.Grouping

namespace Listing

def Row.restrict (outputs : List String) (row : Row) : Row := outputs.map fun o ↦ (o, cell row o)

theorem cell_restrict {outputs : List String} {o : String} (h : o ∈ outputs) (row : Row) :
    cell (Row.restrict outputs row) o = cell row o := by
  rw [cell, Row.restrict, Keyed.get?_map, if_pos h]
  rfl

namespace Shape

@[elab_as_elim]
theorem induction {motive : Shape → Prop}
    (shape : ∀ columns key many children, (∀ c ∈ children, motive c.2) →
      motive (.mk columns key many children)) : ∀ s, motive s
  | .mk columns key many children => shape columns key many children fun c _hc ↦ induction shape c.2
termination_by s => sizeOf s
decreasing_by
  obtain ⟨name, child⟩ := c
  have := List.sizeOf_lt_of_mem _hc
  simp only [Prod.mk.sizeOf_spec, mk.sizeOf_spec] at *
  omega

mutual

def outputs : Shape → List String
  | mk columns key _ children => columns.map (·.1) ++ key ++ outputsOf children

def outputsOf : List (String × Shape) → List String
  | [] => []
  | (_, child) :: rest => child.outputs ++ outputsOf rest

end

theorem mem_outputsOf {children : List (String × Shape)} {o : String} :
    o ∈ outputsOf children ↔ ∃ c ∈ children, o ∈ c.2.outputs := by
  induction children with
  | nil => simp [outputsOf]
  | cons c rest ih => simp [outputsOf, ih]

theorem withRelations_congr {first first' : Row} {rows rows' : List Row}
    {children : List (String × Shape)}
    (h : ∀ c ∈ children, relationValue c.2 (record c.2) first rows =
      relationValue c.2 (record c.2) first' rows') (done : Keyed Datum) :
    withRelations first rows done children = withRelations first' rows' done children := by
  induction children generalizing done with
  | nil => rfl
  | cons c rest ih =>
    have hrest := ih fun d hd ↦ h d (List.mem_cons_of_mem _ hd)
    rw [withRelations, withRelations, h c List.mem_cons_self]
    split
    · exact hrest _
    · exact hrest _

theorem withRelations_eq_append {first : Row} {rows : List Row} {done : Keyed Datum}
    {children : List (String × Shape)} (hcontent : ∀ c ∈ children, c.2.hasContent)
    (hnames : (done.keys ++ children.map (·.1)).Nodup) :
    withRelations first rows done children =
      done ++ children.map fun c ↦ (c.1, relationValue c.2 (record c.2) first rows) := by
  induction children generalizing done with
  | nil => simp [withRelations]
  | cons c rest ih =>
    have hnew : c.1 ∉ done.keys := fun hmem ↦
      (List.nodup_append.1 hnames).2.2 _ hmem _ (by simp) rfl
    rw [withRelations, if_pos (hcontent c List.mem_cons_self), Keyed.put_of_not_mem hnew, ih]
    · simp
    · exact fun d hd ↦ hcontent d (List.mem_cons_of_mem _ hd)
    · simpa [Keyed.keys_append] using hnames

variable {s : Shape} {f : Row → Row}

theorem keyValues_congr {key : List String} {row row' : Row}
    (h : ∀ o ∈ key, cell row o = cell row' o) :
    Groups.keyValues key row = Groups.keyValues key row' :=
  List.map_congr_left h

theorem toLists_ofRows_map {key : List String} (h : ∀ row, ∀ o ∈ key, cell (f row) o = cell row o)
    (skipNull : Bool) (rows : List Row) :
    (Groups.ofRows key skipNull (rows.map f)).toLists =
      (Groups.ofRows key skipNull rows).toLists.map (List.map f) := by
  have hvalues (row : Row) := keyValues_congr (h row)
  have hgrouped : (fun row ↦ Groups.isGrouped key skipNull (f row)) =
      Groups.isGrouped key skipNull := by
    funext row
    rw [Groups.isGrouped, hvalues]
    rfl
  have htext (row : Row) : Groups.keyText key (f row) = Groups.keyText key row := by
    rw [Groups.keyText, hvalues]
    rfl
  simp only [Groups.toLists_ofRows, List.filter_map, List.map_map, Function.comp_def, hgrouped,
    htext]

theorem isAbsent_congr {row row' : Row} (h : ∀ c ∈ s.columns, cell row c.1 = cell row' c.1) :
    s.isAbsent row = s.isAbsent row' := by
  rw [isAbsent, isAbsent]
  congr 1
  rw [Bool.eq_iff_iff, List.all_eq_true, List.all_eq_true]
  refine forall₂_congr fun ⟨o, field⟩ hc ↦ ?_
  have hcell : cell row o = cell row' o := h _ hc
  simp only [hcell]

theorem ownColumns_congr {columns : List (String × String)} {row row' : Row}
    (h : ∀ c ∈ columns, cell row c.1 = cell row' c.1) :
    ownColumns columns row = ownColumns columns row' := by
  rw [ownColumns, ownColumns]
  congr 1
  refine List.map_congr_left fun ⟨o, field⟩ hc ↦ ?_
  have hcell : cell row o = cell row' o := h _ hc
  simp only [hcell]

theorem key_subset_outputs (s : Shape) : ∀ o ∈ s.key, o ∈ s.outputs := by
  obtain ⟨columns, key, many, children⟩ := s
  intro o ho
  simp only [Shape.key] at ho
  simp [outputs, ho]

theorem columns_subset_outputs (s : Shape) : ∀ c ∈ s.columns, c.1 ∈ s.outputs := by
  obtain ⟨columns, key, many, children⟩ := s
  intro c hc
  have hmem := List.mem_map_of_mem (f := Prod.fst) hc
  simp only [Shape.columns] at hmem
  simp [outputs, hmem]

theorem relationValue_map (hrecord : ∀ rows, s.record (rows.map f) = s.record rows)
    (h : ∀ row, ∀ o ∈ s.outputs, cell (f row) o = cell row o) (first : Row) (rows : List Row) :
    relationValue s s.record (f first) (rows.map f) = relationValue s s.record first rows := by
  have hgroups := toLists_ofRows_map (fun row o ho ↦ h row o (key_subset_outputs s o ho)) true rows
  have habsent : s.isAbsent (f first) = s.isAbsent first :=
    isAbsent_congr fun c hc ↦ h first _ (columns_subset_outputs s c hc)
  rw [relationValue, relationValue, hgroups, habsent, hrecord, List.map_map]
  simp only [Function.comp_def, hrecord]

/-- Rows may change as long as the cells that the shape looks at stay. -/
theorem record_map (h : ∀ row, ∀ o ∈ s.outputs, cell (f row) o = cell row o) (rows : List Row) :
    s.record (rows.map f) = s.record rows := by
  induction s using Shape.induction generalizing rows with
  | shape columns key many children ih =>
    cases rows with
    | nil => rfl
    | cons first rest =>
      have hown : ownColumns columns (f first) = ownColumns columns first :=
        ownColumns_congr fun c hc ↦ h first _ (columns_subset_outputs _ c hc)
      rw [List.map_cons, record, record, hown]
      refine withRelations_congr (fun c hc ↦ ?_) _
      have hchild : ∀ row, ∀ o ∈ c.2.outputs, cell (f row) o = cell row o := fun row o ho ↦
        h row o (by simp [outputs, mem_outputsOf.2 ⟨c, hc, ho⟩])
      exact relationValue_map (ih c hc hchild) hchild first (first :: rest)

theorem toLists_ofRows_eraseDups (key : List String) (skipNull : Bool) (rows : List Row) :
    (Groups.ofRows key skipNull rows.eraseDups).toLists =
      (Groups.ofRows key skipNull rows).toLists.map List.eraseDups := by
  rw [Groups.toLists_ofRows, Groups.toLists_ofRows, ← eraseDups_filter, eraseDups_map, List.map_map]
  refine List.map_congr_left fun k _ ↦ ?_
  simp only [Function.comp_apply, eraseDups_filter]

theorem relationValue_eraseDups (hrecord : ∀ rows, s.record rows.eraseDups = s.record rows)
    (first : Row) (rows : List Row) :
    relationValue s s.record first rows.eraseDups = relationValue s s.record first rows := by
  rw [relationValue, relationValue, toLists_ofRows_eraseDups, hrecord, List.map_map]
  simp only [Function.comp_def, hrecord]

/-- A row that has occurred before makes no difference. -/
theorem record_eraseDups (s : Shape) (rows : List Row) :
    s.record rows.eraseDups = s.record rows := by
  induction s using Shape.induction generalizing rows with
  | shape columns key many children ih =>
    cases rows with
    | nil => rfl
    | cons first rest =>
      have hfirst : (first :: rest).eraseDups =
          first :: (rest.filter fun r ↦ !r == first).eraseDups := List.eraseDups_cons
      rw [hfirst, record, record, ← hfirst]
      exact withRelations_congr (fun c hc ↦
        relationValue_eraseDups (ih c hc) first (first :: rest)) _

/-- Rows amount to the same where their restrictions first occur in the same order. -/
theorem relationValue_eq_of_firsts {first first' : Row} {rest rest' : List Row}
    (h : ((first :: rest).map (Row.restrict s.outputs)).eraseDups =
      ((first' :: rest').map (Row.restrict s.outputs)).eraseDups) :
    relationValue s s.record first (first :: rest) =
      relationValue s s.record first' (first' :: rest') := by
  have hcells (row : Row) (o : String) (ho : o ∈ s.outputs) := cell_restrict ho row
  have normal (row : Row) (rows : List Row) : relationValue s s.record row rows =
      relationValue s s.record (Row.restrict s.outputs row)
        (rows.map (Row.restrict s.outputs)).eraseDups := by
    rw [relationValue_eraseDups (record_eraseDups s),
      relationValue_map (record_map hcells) hcells]
  have hfirst : Row.restrict s.outputs first = Row.restrict s.outputs first' := by
    have hhead := congrArg List.head? h
    rw [head?_eraseDups, head?_eraseDups] at hhead
    simpa using hhead
  rw [normal first, normal first', h, hfirst]

end Shape

end Listing
