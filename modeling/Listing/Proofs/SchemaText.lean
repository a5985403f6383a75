import Listing.Proofs.OptionsText
import Listing.Schema.Document

namespace Listing

namespace Datum

theorem itemsDepth_le_iff {ds : List Datum} {n : Nat} :
    itemsDepth ds ≤ n ↔ ∀ d ∈ ds, d.depth ≤ n := by
  induction ds with
  | nil => simp [itemsDepth]
  | cons d ds ih => rw [itemsDepth, Nat.max_le, ih, List.forall_mem_cons]

theorem entriesDepth_le_iff {es : List (String × Datum)} {n : Nat} :
    entriesDepth es ≤ n ↔ ∀ e ∈ es, e.2.depth ≤ n := by
  induction es with
  | nil => simp [entriesDepth]
  | cons e es ih => rw [entriesDepth, Nat.max_le, ih, List.forall_mem_cons]

theorem depth_list_map_le {α : Type} {write : α → Datum} {n : Nat} (l : List α)
    (h : ∀ a, (write a).depth ≤ n) : (Datum.list (l.map write)).depth ≤ n + 1 := by
  rw [depth, Nat.add_le_add_iff_right, itemsDepth_le_iff, List.forall_mem_map]
  exact fun a _ ↦ h a

theorem isPlain_list_map {α : Type} {write : α → Datum} (l : List α)
    (h : ∀ a, (write a).isPlain) : (Datum.list (l.map write)).isPlain := by
  rw [isPlain, allPlain_iff, List.forall_mem_map]
  exact fun a _ ↦ h a

end Datum

theorem depth_optionDatum_le {α : Type} {write : α → Datum} {n : Nat} (o : Option α)
    (h : ∀ a, (write a).depth ≤ n) : (optionDatum write o).depth ≤ n := by
  cases o with
  | none => exact Nat.zero_le n
  | some a => exact h a

theorem Column.ofDatum?_datum (c : Column) : ofDatum? c.datum = some c := by
  have hnamed : Parts.AreNamed parts c.datum.named := by
    refine ⟨by simp [datum, Datum.named, Datum.entries?], ?_⟩
    simp [parts, datum, Datum.named, Datum.entries?, PartName.matches]
  obtain ⟨given, hof, hget⟩ := Parts.of?_table hnamed
  simp only [parts, List.forall_mem_cons] at hget
  have hdatum : Parts.of? parts c.datum = some ⟨true, given⟩ := hof
  have hreadable : c.datum.isReadable := rfl
  rw [datum] at hdatum hreadable ⊢
  rw [ofDatum?, if_pos hreadable]
  simp only [↓bind_of_eq_some hdatum,
    ↓bind_of_eq_some (Parts.required_eq hget.1 (Datum.text?_text c.name)),
    ↓bind_of_eq_some (Parts.orElse_eq hget.2.1 (Datum.bool?_bool c.isVirtual))]

theorem JoinPair.ofDatum?_datum (j : JoinPair) : ofDatum? j.datum = some j := by
  have hkeys : j.datum.named.keys.Nodup := by simp [datum, Datum.named, Datum.entries?]
  have hnamed : Parts.AreNamed parts j.datum.named := .of_nodup hkeys (by simp [parts])
  obtain ⟨given, hof, hget⟩ := Parts.of?_table hnamed
  simp only [parts, List.forall_mem_cons] at hget
  have hdatum : Parts.of? parts j.datum = some ⟨true, given⟩ := hof
  rw [ofDatum?]
  simp only [↓bind_of_eq_some hdatum,
    ↓bind_of_eq_some (Parts.required_eq hget.1 (Datum.text?_text j.localColumn)),
    ↓bind_of_eq_some (Parts.required_eq hget.2.1 (Datum.text?_text j.referenced))]

theorem JoinTable.ofDatum?_datum (t : JoinTable) : ofDatum? t.datum = some t := by
  have hkeys : t.datum.named.keys.Nodup := by simp [datum, Datum.named, Datum.entries?]
  have hnamed : Parts.AreNamed parts t.datum.named := .of_nodup hkeys (by simp [parts])
  obtain ⟨given, hof, hget⟩ := Parts.of?_table hnamed
  simp only [parts, List.forall_mem_cons] at hget
  have hdatum : Parts.of? parts t.datum = some ⟨true, given⟩ := hof
  rw [ofDatum?]
  simp only [↓bind_of_eq_some hdatum,
    ↓bind_of_eq_some (Parts.required_eq hget.1 (Datum.text?_text t.table)),
    ↓bind_of_eq_some (Parts.required_eq hget.2.1 (Datum.text?_text t.sourceColumn)),
    ↓bind_of_eq_some (Parts.required_eq hget.2.2.1 (Datum.text?_text t.targetColumn))]

theorem RelationKind.ofDatum?_name (f : DocumentFormat) (k : RelationKind) :
    ofDatum? f (.text k.name) = some k := by
  rw [ofDatum?, choice?_text, Option.bind_some]
  cases k <;> decide

namespace Relation

theorem ofDatum?_datum (f : DocumentFormat) (r : Relation) : ofDatum? f r.datum = some r := by
  have hkeys : r.datum.named.keys.Nodup := by simp [datum, Datum.named, Datum.entries?]
  have hnamed : Parts.AreNamed parts r.datum.named := .of_nodup hkeys (by simp [parts])
  obtain ⟨given, hof, hget⟩ := Parts.of?_table hnamed
  simp only [parts, List.forall_mem_cons] at hget
  obtain ⟨hname, htarget, hkind, hcolumns, htable, howning, -⟩ := hget
  have hdatum : Parts.of? parts r.datum = some ⟨true, given⟩ := hof
  have hpairs : Datum.listOf? JoinPair.ofDatum? (.list (r.joinColumns.map JoinPair.datum)) =
      some r.joinColumns := Datum.listOf?_map fun j _ ↦ JoinPair.ofDatum?_datum j
  rw [ofDatum?]
  simp only [↓bind_of_eq_some hdatum,
    ↓bind_of_eq_some (Parts.required_eq hname (Datum.text?_text r.name)),
    ↓bind_of_eq_some (Parts.required_eq htarget (Datum.text?_text r.target)),
    ↓bind_of_eq_some (Parts.required_eq hkind (RelationKind.ofDatum?_name f r.kind)),
    ↓bind_of_eq_some (Parts.orElse_eq hcolumns hpairs),
    ↓bind_of_eq_some (Parts.orElse_optionDatum htable rfl fun t _ ↦ JoinTable.ofDatum?_datum t),
    ↓bind_of_eq_some (Parts.orElse_optionDatum howning rfl fun b _ ↦ Datum.bool?_bool b)]

theorem isPlain_datum (r : Relation) : r.datum.isPlain := by
  rw [datum, Datum.isPlain, Datum.entriesPlain_iff]
  simp only [List.forall_mem_cons]
  exact ⟨rfl, rfl, rfl, Datum.isPlain_list_map _ fun _ ↦ rfl, isPlain_optionDatum fun _ _ ↦ rfl,
    isPlain_optionDatum fun _ _ ↦ rfl, by simp⟩

theorem depth_datum_le (r : Relation) : r.datum.depth ≤ 3 := by
  rw [datum, Datum.depth, Nat.add_le_add_iff_right, Datum.entriesDepth_le_iff]
  simp only [List.forall_mem_cons]
  refine ⟨Nat.zero_le _, Nat.zero_le _, Nat.zero_le _,
    Datum.depth_list_map_le _ fun _ ↦ ?_, depth_optionDatum_le _ fun _ ↦ ?_,
    depth_optionDatum_le _ fun _ ↦ Nat.zero_le _, by simp⟩
  · exact le_rfl
  · exact Nat.le_succ 1

end Relation

namespace Entity

theorem ofDatum?_datum (f : DocumentFormat) (e : Entity) : ofDatum? f e.datum = some e := by
  have hkeys : e.datum.named.keys.Nodup := by simp [datum, Datum.named, Datum.entries?]
  have hnamed : Parts.AreNamed parts e.datum.named := .of_nodup hkeys (by simp [parts])
  obtain ⟨given, hof, hget⟩ := Parts.of?_table hnamed
  simp only [parts, List.forall_mem_cons] at hget
  obtain ⟨hname, htable, hkey, hcolumns, hrelations, hdelete, -⟩ := hget
  have hdatum : Parts.of? parts e.datum = some ⟨true, given⟩ := hof
  have hcolumnsRead : Datum.listOf? Column.ofDatum? (.list (e.columns.map Column.datum)) =
      some e.columns := Datum.listOf?_map fun c _ ↦ Column.ofDatum?_datum c
  have hrelationsRead : Datum.listOf? (Relation.ofDatum? f)
      (.list (e.relations.map Relation.datum)) = some e.relations :=
    Datum.listOf?_map fun r _ ↦ Relation.ofDatum?_datum f r
  rw [ofDatum?]
  simp only [↓bind_of_eq_some hdatum,
    ↓bind_of_eq_some (Parts.orElse_eq hname (Datum.text?_text e.name)),
    ↓bind_of_eq_some (Parts.required_eq htable (Datum.text?_text e.table)),
    ↓bind_of_eq_some (Parts.orElse_eq hkey (texts?_textsDatum e.primaryKey)),
    ↓bind_of_eq_some (Parts.orElse_eq hcolumns hcolumnsRead),
    ↓bind_of_eq_some (Parts.orElse_eq hrelations hrelationsRead),
    ↓bind_of_eq_some (Parts.orElse_optionDatum hdelete rfl fun s _ ↦ Datum.text?_text s)]

theorem isPlain_datum (e : Entity) : e.datum.isPlain := by
  rw [datum, Datum.isPlain, Datum.entriesPlain_iff]
  simp only [List.forall_mem_cons]
  exact ⟨rfl, rfl, isPlain_textsDatum _, Datum.isPlain_list_map _ fun _ ↦ rfl,
    Datum.isPlain_list_map _ Relation.isPlain_datum, isPlain_optionDatum fun _ _ ↦ rfl, by simp⟩

theorem depth_datum_le (e : Entity) : e.datum.depth ≤ 5 := by
  rw [datum, Datum.depth, Nat.add_le_add_iff_right, Datum.entriesDepth_le_iff]
  simp only [List.forall_mem_cons]
  refine ⟨Nat.zero_le _, Nat.zero_le _, Datum.depth_list_map_le _ fun _ ↦ Nat.zero_le _,
    Datum.depth_list_map_le _ fun _ ↦ ?_, Datum.depth_list_map_le _ Relation.depth_datum_le,
    depth_optionDatum_le _ fun _ ↦ Nat.zero_le _, by simp⟩
  · exact (by decide : 1 ≤ 3)

end Entity

namespace Schema

variable {s : Schema}

theorem isPlain_datum (s : Schema) : s.datum.isPlain := by
  have hentities : ∀ e ∈ s.entities.map fun e ↦ (e.1, e.2.datum), e.2.isPlain := by
    rw [List.forall_mem_map]
    exact fun e _ ↦ e.2.isPlain_datum
  simp only [datum, Datum.isPlain, Datum.entriesPlain, Bool.and_true]
  exact Datum.entriesPlain_iff.2 hentities

theorem depth_datum_le (s : Schema) : s.datum.depth ≤ 7 := by
  have hentities : ∀ e ∈ s.entities.map fun e ↦ (e.1, e.2.datum), e.2.depth ≤ 5 := by
    rw [List.forall_mem_map]
    exact fun e _ ↦ e.2.depth_datum_le
  simp only [datum, Datum.depth, Datum.entriesDepth, Nat.max_zero]
  exact Nat.add_le_add_right (Datum.entriesDepth_le_iff.2 hentities) 2

theorem ofDatum?_datum (f : DocumentFormat) (s : Schema) :
    ofDatum? f s.datum = some ⟨.ofEntries s.entities⟩ := by
  have hkeys : s.datum.named.keys.Nodup := by simp [datum, Datum.named, Datum.entries?]
  have hnamed : Parts.AreNamed parts s.datum.named := .of_nodup hkeys (by simp [parts])
  obtain ⟨given, hof, hget⟩ := Parts.of?_table hnamed
  simp only [parts, List.forall_mem_cons] at hget
  have hdatum : Parts.of? parts s.datum = some ⟨true, given⟩ := hof
  have hentities : Datum.keyedOf? (Entity.ofDatum? f)
      (.table (s.entities.map fun e ↦ (e.1, e.2.datum))) = some (.ofEntries s.entities) :=
    Datum.keyedOf?_entries fun e _ ↦ Entity.ofDatum?_datum f e.2
  rw [ofDatum?]
  simp only [↓bind_of_eq_some hdatum, ↓bind_of_eq_some (Parts.orElse_eq hget.1 hentities)]

theorem keys_named (s : Schema) : s.named.entities.keys = s.entities.keys := by
  simp [named, Keyed.keys]

theorem named_eq_self : s.named = s ↔ ∀ e ∈ s.entities, e.2.name = "" → e.1 = "" := by
  have hentities : s.named = s ↔ s.named.entities = s.entities.map id := by
    rw [List.map_id, Schema.mk.injEq]
  rw [hentities, named, List.map_inj_left]
  refine forall₂_congr fun ⟨key, e⟩ _ ↦ ?_
  by_cases hname : e.name = ""
  · obtain ⟨name, table, primaryKey, columns, relations, softDelete⟩ := e
    obtain rfl : name = "" := hname
    simp
  · simp [hname]

theorem ofDocument_eq_ok {f : DocumentFormat} {content : String} :
    ofDocument f content = .ok s ↔
      ∃ r, (f.read content).bind (ofDatum? f) = some r ∧ r.named.check = .ok () ∧ r.named = s := by
  have hread (r : Schema) : readDocument f (documentName f) (ofDatum? f) content = .ok r ↔
      (f.read content).bind (ofDatum? f) = some r := by
    rw [readDocument]
    cases (f.read content).bind (ofDatum? f) <;> simp
  rw [ofDocument, bind_eq_ok]
  simp only [hread]
  refine exists_congr fun r ↦ and_congr_right fun _ ↦ ?_
  rw [check_eq_ok, pure_eq_ok]

/-- A schema is read back from its text exactly when each entity has a key of its own, no entity
lacks a name that its key could give it, and the schema passes its check. -/
theorem ofDocument_render_iff : ofDocument .json (Json.render s.datum) = .ok s ↔
    s.entities.keys.Nodup ∧ s.check = .ok () ∧ ∀ e ∈ s.entities, e.2.name = "" → e.1 = "" := by
  have hdepth : s.datum.depth ≤ Json.maxDepth := s.depth_datum_le.trans (by decide)
  have hread : (Json.read (Json.render s.datum)).bind (ofDatum? .json) =
      some ⟨.ofEntries s.entities⟩ := by
    rw [Json.read_render s.isPlain_datum hdepth, Option.bind_some, ofDatum?_datum]
  have hok : ofDocument .json (Json.render s.datum) = .ok s ↔
      (named ⟨.ofEntries s.entities⟩).check = .ok () ∧ named ⟨.ofEntries s.entities⟩ = s := by
    rw [ofDocument_eq_ok, DocumentFormat.read, hread]
    simp
  rw [hok]
  constructor
  · rintro ⟨hcheck, hs⟩
    have hkeys : s.entities.keys.Nodup := by
      rw [← hs, keys_named]
      exact Keyed.nodup_keys_ofEntries _
    rw [Keyed.ofEntries_eq_self hkeys] at hcheck hs
    have hs : s.named = s := hs
    exact ⟨hkeys, hs ▸ hcheck, named_eq_self.1 hs⟩
  · rintro ⟨hkeys, hcheck, hnames⟩
    have hs : s.named = s := named_eq_self.2 hnames
    rw [Keyed.ofEntries_eq_self hkeys]
    exact ⟨hs.symm ▸ hcheck, hs⟩

end Schema

end Listing
