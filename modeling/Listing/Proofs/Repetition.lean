import Listing.Proofs.Partition

namespace Listing

/-- Further rows are put in, each with the same cells at the given outputs as some row before it. A
copy of a row is one of them, whatever the outputs are. -/
inductive Repeats (outputs : List String) (rows : List Row) : List Row → Prop
  | refl : Repeats outputs rows rows
  | insert {before after : List Row} {row copy : Row} :
    Repeats outputs rows (before ++ after) → row ∈ before →
    (∀ o ∈ outputs, cell copy o = cell row o) → Repeats outputs rows (before ++ copy :: after)

namespace Repeats

variable {outputs : List String} {rows rows' : List Row} {first : Row} {rest : List Row}

theorem firsts_eq (h : Repeats outputs rows rows') :
    (rows'.map (Row.restrict outputs)).eraseDups = (rows.map (Row.restrict outputs)).eraseDups := by
  induction h with
  | refl => rfl
  | @insert before after row copy _ hrow hcells ih =>
    let cut := Row.restrict outputs
    have hcopy : cut copy = cut row := List.map_congr_left fun o ho ↦ by rw [hcells o ho]
    have hknown : ((before ++ [copy]).map cut).eraseDups = (before.map cut).eraseDups := by
      rw [List.map_append]
      refine eraseDups_append_of_subset fun r hr ↦ ?_
      obtain rfl : r = cut copy := List.mem_singleton.1 hr
      exact hcopy ▸ List.mem_map_of_mem hrow
    calc ((before ++ copy :: after).map cut).eraseDups
        = ((before ++ [copy]).map cut ++ after.map cut).eraseDups := by
          rw [List.append_cons, List.map_append]
      _ = (before.map cut ++ after.map cut).eraseDups := eraseDups_append_congr hknown rfl
      _ = (rows.map cut).eraseDups := by rw [← List.map_append, ih]

theorem exists_cons (h : Repeats outputs (first :: rest) rows') :
    ∃ rest', rows' = first :: rest' := by
  induction h with
  | refl => exact ⟨rest, rfl⟩
  | @insert before after row copy _ hrow _ ih =>
    obtain ⟨rest', hrest⟩ := ih
    obtain ⟨head, tail, rfl⟩ := List.exists_cons_of_ne_nil (List.ne_nil_of_mem hrow)
    obtain ⟨rfl, -⟩ := List.cons.inj hrest
    exact ⟨tail ++ copy :: after, rfl⟩

theorem append_self (outputs : List String) (rows : List Row) :
    Repeats outputs rows (rows ++ rows) := by
  have run (again : List Row) (h : ∀ row ∈ again, row ∈ rows) :
      Repeats outputs rows (rows ++ again) := by
    induction again using List.reverseRecOn with
    | nil => exact rows.append_nil.symm ▸ .refl
    | append_singleton again row ih =>
      have hagain := ih fun r hr ↦ h r (List.mem_append_left _ hr)
      rw [← List.append_assoc]
      rw [← (rows ++ again).append_nil] at hagain
      exact .insert hagain (List.mem_append_left _ (h row (by simp))) fun _ _ ↦ rfl
  exact run rows fun _ ↦ id

end Repeats

namespace Shape

variable {s : Shape} {rows rows' : List Row}

theorem records_eq_firsts (s : Shape) (rows : List Row) :
    s.records true rows = s.records true (rows.map (Row.restrict s.outputs)).eraseDups := by
  have hcells (row : Row) (o : String) (ho : o ∈ s.outputs) := cell_restrict ho row
  have hkey (row : Row) (o : String) (ho : o ∈ s.key) := hcells row o (key_subset_outputs s o ho)
  rw [records, records, if_pos rfl, if_pos rfl, toLists_ofRows_eraseDups,
    toLists_ofRows_map hkey, List.map_map, List.map_map]
  refine List.map_congr_left fun group _ ↦ ?_
  rw [Function.comp_apply, Function.comp_apply, record_eraseDups, record_map hcells]

theorem records_of_repeats (h : Repeats s.outputs rows rows') :
    s.records true rows' = s.records true rows := by
  rw [records_eq_firsts, h.firsts_eq, ← records_eq_firsts]

theorem relationValue_of_repeats {first : Row} {rest rest' : List Row}
    (h : Repeats s.outputs (first :: rest) (first :: rest')) :
    relationValue s s.record first (first :: rest') =
      relationValue s s.record first (first :: rest) :=
  relationValue_eq_of_firsts h.firsts_eq

end Shape

namespace Plan

variable {p : Plan}

/-- Repeated rows change nothing, neither in the list of records nor at any place inside of them,
where rows count as repeated when they are so for what is built at the place. -/
structure IgnoresRepeats (p : Plan) : Prop where
  records : ∀ rows rows', Repeats (Shape.ofPlan p).outputs rows rows' →
    p.records rows' = p.records rows
  nested : ∀ names s, (Shape.ofPlan p).at? names = some s → ∀ first rest rows',
    Repeats s.outputs (first :: rest) rows' → ∃ rest', rows' = first :: rest' ∧
      Shape.relationValue s s.record first rows' =
        Shape.relationValue s s.record first (first :: rest)

theorem ignoresRepeats_of_hasToMany (hmany : p.hasToMany) : p.IgnoresRepeats := by
  refine ⟨fun rows rows' h ↦ ?_, fun names s _ first rest rows' h ↦ ?_⟩
  · have hrecords := Shape.records_of_repeats h
    rw [records, records, hmany, hrecords]
  · obtain ⟨rest', rfl⟩ := h.exists_cons
    exact ⟨rest', rfl, Shape.relationValue_of_repeats h⟩

def paidRows : List Row := paidInstances.flatMap (Instance.rows paid .root)

theorem ignoresRepeats_of_hasToMany_paid : paid.hasToMany ∧ paid.IgnoresRepeats ∧
    paidRows.length = 3 ∧ paid.records (paidRows ++ paidRows) = paid.records paidRows := by
  have hignores := ignoresRepeats_of_hasToMany (p := paid) rfl
  exact ⟨rfl, hignores, by decide +kernel, hignores.records _ _ (.append_self _ _)⟩

end Plan

end Listing
