import Listing.Proofs.Acceptance
import Listing.Proofs.Renaming

namespace Listing

namespace Path

/-- The same paths, those on the way to them among them. -/
def SameExpansion (declared declared' : List Path) : Prop :=
  ∀ p, p ∈ declared.flatMap ancestors ↔ p ∈ declared'.flatMap ancestors

variable {declared declared' : List Path}

theorem mem_expand_iff {p : Path} : p ∈ expand declared ↔ p ∈ declared.flatMap ancestors := by
  simp [expand]

theorem SameExpansion.isCovered_iff (h : SameExpansion declared declared') {p : Path} :
    p.isCovered declared ↔ p.isCovered declared' := by
  rw [← mem_expand, ← mem_expand, mem_expand_iff, mem_expand_iff]
  exact h p

theorem SameExpansion.symm (h : SameExpansion declared declared') :
    SameExpansion declared' declared := fun p ↦ (h p).symm

theorem SameExpansion.perm (h : SameExpansion declared declared') :
    (expand declared).Perm (expand declared') := by
  rw [List.perm_ext_iff_of_nodup (expand_nodup _) (expand_nodup _)]
  intro p
  rw [mem_expand_iff, mem_expand_iff]
  exact h p

end Path

/-- Lists without repeated labels are the same up to order where they have the same labels, and the
same member for each. -/
theorem perm_of_labels {α β : Type} (label : α → β) {l l' : List α}
    (hlabels : (l.map label).Perm (l'.map label)) (hn : (l.map label).Nodup)
    (h : ∀ a ∈ l, ∀ b ∈ l', label a = label b → a = b) : l.Perm l' := by
  have hn' : (l'.map label).Nodup := hlabels.nodup_iff.1 hn
  rw [List.perm_ext_iff_of_nodup hn.of_map hn'.of_map]
  intro a
  constructor
  · intro ha
    obtain ⟨b, hb, hlabel⟩ := List.mem_map.1 (hlabels.subset (List.mem_map_of_mem ha))
    exact h a ha b hb hlabel.symm ▸ hb
  · intro ha
    obtain ⟨b, hb, hlabel⟩ := List.mem_map.1 (hlabels.symm.subset (List.mem_map_of_mem ha))
    exact (h b hb a ha hlabel) ▸ hb

namespace QueryOptions

variable {s : Schema} {root : Entity} {o : QueryOptions} {declared : List Path}

theorem IsComparable.of_sameExpansion {declared' : List Path} {f : Field}
    (hf : IsComparable s root declared f) (h : Path.SameExpansion declared declared') :
    IsComparable s root declared' f :=
  ⟨fun p hp ↦ h.isCovered_iff.1 (hf.1 p hp), hf.2⟩

theorem IsValid.of_sameExpansion (hv : o.IsValid s root)
    (h : Path.SameExpansion o.relations declared) :
    IsValid s root { o with relations := declared } where
  page := hv.page
  limit := hv.limit
  key := hv.key
  relations p hp := by
    have hcovered : p.isCovered declared := List.any_eq_true.2 ⟨p, hp, Path.passes_refl p⟩
    exact hv.joinable p (Path.mem_expand.2 (h.isCovered_iff.2 hcovered))
  covered fields hfields f hf p hp := h.isCovered_iff.1 (hv.covered fields hfields f hf p hp)
  select := hv.select
  sortBy f hf := (hv.sortBy f hf).of_sameExpansion h
  searchFields f hf := (hv.searchFields f hf).of_sameExpansion h
  dateField f hf := (hv.dateField f hf).of_sameExpansion h
  filters f hf := (hv.filters f hf).of_sameExpansion h

end QueryOptions

/-- Two steps on one path plan the same join, up to what the names are. -/
theorem JoinPlanner.Step.renamed_eq {planner : JoinPlanner} {projection : Option Projection}
    {t u t' u' : AliasTable} {j j' : Join} {hops hops' : List Schema.Hop} {hop hop' : Schema.Hop}
    {f f' : String → String} (h : planner.Step projection t j u hops hop)
    (h' : planner.Step projection t' j' u' hops' hop') (hpath : j.path = j'.path)
    (hname : f j.name = f' j'.name) (hparent : f j.parentName = f' j'.parentName)
    (hlink : ∀ l ∈ j.link, ∀ l' ∈ j'.link, f l.name = f' l'.name) :
    j.renamed f = j'.renamed f' := by
  obtain rfl : hops = hops' := by
    have hresolves := h.resolves
    rw [hpath, h'.resolves] at hresolves
    exact (Except.ok.inj hresolves).symm
  obtain rfl : hop = hop' := Option.some.inj (h.last.symm.trans h'.last)
  have hbrings := h.brings
  rw [hpath, ← h'.brings] at hbrings
  obtain ⟨hmode, hcolumns⟩ := Prod.mk.inj hbrings
  have hsoft : j.softDelete.map (·.renamed f) = j'.softDelete.map (·.renamed f') := by
    rw [h.softDelete, h'.softDelete]
    split
    · rfl
    · simp only [Option.map_map, Function.comp_def, ColumnRef.renamed, hname]
  have hconditions : j.on.map (fun pair ↦ (pair.1.renamed f, pair.2.renamed f)) =
      j'.on.map (fun pair ↦ (pair.1.renamed f', pair.2.renamed f')) ∧
      j.link.map (·.renamed f) = j'.link.map (·.renamed f') := by
    cases h.connects with
    | direct htable hne hdirect hon =>
      cases h'.connects with
      | direct _ _ hdirect' hon' =>
        rw [hdirect, hdirect', hon, hon']
        simp [ColumnRef.renamed, hname, hparent]
      | linked _ _ _ _ htable' => simp [htable] at htable'
    | linked table keys rest link htable hkeys hlinked hon =>
      cases h'.connects with
      | direct htable' => simp [htable] at htable'
      | linked table' keys' rest' link' htable' hkeys' hlinked' hon' =>
        obtain rfl : table = table' := Option.some.inj (htable.symm.trans htable')
        obtain ⟨rfl, -⟩ := List.cons.inj (hkeys.symm.trans hkeys')
        have hnames : f link = f' link' := hlink _ hlinked _ hlinked'
        rw [hlinked, hlinked', hon, hon']
        simp [ColumnRef.renamed, Link.renamed, hname, hparent, hnames]
  simp only [Join.renamed, Join.mk.injEq]
  exact ⟨hpath, hname, hparent, h.table.trans h'.table.symm, h.kind.trans h'.kind.symm,
    h.many.trans h'.many.symm, hmode, hconditions.1, hsoft, hconditions.2, hcolumns,
    h.primaryKey.trans h'.primaryKey.symm⟩

namespace Plan

/-- Plans that differ in the order of joins and of selected columns, and in what names the tables
have. -/
structure SameUpToNames (p p' : Plan) : Prop where
  joins : p.unnamed.joins.Perm p'.unnamed.joins
  select : p.unnamed.select.Perm p'.unnamed.select
  others : { p.unnamed with joins := [], select := [] } =
    { p'.unnamed with joins := [], select := [] }

variable {s : Schema} {root : Entity} {o o' : QueryOptions} {p p' : Plan} {t t' : AliasTable}
  {j : Join}

theorem Compiled.roleOf_name? (h : Compiled s root o p t) {q : Option Path} {a : String}
    (ha : t.name? q = some a) : p.roleOf a = Role.ofPath? q := by
  cases q with
  | none =>
    obtain rfl : t.root = a := Option.some.inj ha
    rw [← h.rootName, roleOf_rootName]
    rfl
  | some q =>
    rw [AliasTable.name?, AliasTable.get?, Keyed.get?, h.byPath] at ha
    obtain ⟨i, hi, rfl, rfl⟩ := mem_of_lookup ha
    exact roleOf_name h.distinct hi

theorem Compiled.roleOf_parentName (h : Compiled s root o p t) (hj : j ∈ p.joins) :
    p.roleOf j.parentName = Role.ofPath? j.path.parent? := by
  obtain ⟨before, after, hsplit⟩ := List.append_of_mem hj
  rcases h.parents hsplit with ⟨hdepth, hname⟩ | ⟨i, hi, hparent, hname⟩
  · rw [hname, roleOf_rootName, Path.parent?_eq_none.2]
    · rfl
    · obtain ⟨segment, hsegments⟩ := List.length_eq_one_iff.1 hdepth
      simp [Path.leaf, hsegments]
  · rw [hname, hparent]
    exact roleOf_name h.distinct (hsplit ▸ List.mem_append_left _ hi)

theorem Compiled.renamed_ref (h : Compiled s root o p t) {f : Field}
    (hf : ∀ q, f.relation = some q → q.isCovered o.relations) :
    (t.ref f).renamed (fun name ↦ (p.roleOf name).text) =
      ⟨(Role.ofPath? f.relation).text, f.column⟩ := by
  obtain ⟨a, ha⟩ := Option.isSome_iff_exists.1 (h.settles hf)
  rw [AliasTable.ref_eq ha, ColumnRef.renamed, h.roleOf_name? ha]

variable {declared : List Path}

theorem Compiled.joins_perm (h : Compiled s root o p t)
    (h' : Compiled s root { o with relations := declared } p' t')
    (hsame : Path.SameExpansion o.relations declared) :
    p.unnamed.joins.Perm p'.unnamed.joins := by
  have hpaths (p : Plan) : p.unnamed.joins.map (·.path) = p.joinPaths := by
    simp only [unnamed, renamed, List.map_map, joinPaths]
    rfl
  refine perm_of_labels Join.path ?_ ?_ ?_
  · rw [hpaths, hpaths, h.paths, h'.paths]
    exact hsame.perm
  · rw [hpaths, h.paths]
    exact Path.expand_nodup _
  · intro a ha b hb hlabel
    obtain ⟨j, hj, rfl⟩ := List.mem_map.1 ha
    obtain ⟨j', hj', rfl⟩ := List.mem_map.1 hb
    have hpath : j.path = j'.path := hlabel
    obtain ⟨u, u', hops, hop, hstep⟩ := h.step hj
    obtain ⟨v, v', hops', hop', hstep'⟩ := h'.step hj'
    refine hstep.renamed_eq hstep' hpath ?_ ?_ ?_
    · rw [roleOf_name h.distinct hj, roleOf_name h'.distinct hj', hpath]
    · rw [h.roleOf_parentName hj, h'.roleOf_parentName hj', hpath]
    · intro l hl l' hl'
      rw [roleOf_link h.distinct hj hl, roleOf_link h'.distinct hj' hl', hpath]

theorem Compiled.unnamed_select (h : Compiled s root o p t) : p.unnamed.select =
    ((o.planner s root).rootColumns (o.projection root)).map
      (SelectColumn.ofRoot Role.root.text) ++
    p.unnamed.joins.flatMap fun j ↦ j.columns.map (SelectColumn.ofJoin j.path j.name) := by
  have hselect : p.unnamed.select =
      p.select.map (·.renamed fun name ↦ (p.roleOf name).text) := rfl
  rw [hselect, h.select, List.map_append, List.map_map, Join.renamed_selected]
  simp only [Function.comp_def, SelectColumn.renamed_ofRoot, roleOf_rootName]
  rfl

theorem searched_renamed (declared : List Path) {f f' : String → String}
    (hfields : ∀ x ∈ o.searchFields,
      (t.ref (Field.ofText x)).renamed f = (t'.ref (Field.ofText x)).renamed f') :
    (o.searched t).predicates.map (Predicate.renamed f) =
        ({ o with relations := declared }.searched t').predicates.map (Predicate.renamed f') ∧
      (o.searched t).bindings = ({ o with relations := declared }.searched t').bindings := by
  have hcolumns : (o.searchFields.map fun x ↦ t.ref (Field.ofText x)).map (·.renamed f) =
      (o.searchFields.map fun x ↦ t'.ref (Field.ofText x)).map (·.renamed f') := by
    rw [List.map_map, List.map_map]
    exact List.map_congr_left hfields
  rw [QueryOptions.searched, QueryOptions.searched]
  cases o.search.bind Text.nonBlank? with
  | none => exact ⟨rfl, rfl⟩
  | some term =>
    by_cases hnone : o.searchFields = []
    · simp [hnone]
    · simp only [hnone, if_false, Option.bind_some, Option.getD_some]
      rw [Conditions.searching_renamed, Conditions.searching_renamed, hcolumns,
        ← Conditions.searching_bindings_congr f, hcolumns, Conditions.searching_bindings_congr]
      exact ⟨rfl, rfl⟩

theorem softDelete_renamed (f : String → String) (root : Entity) (name : String)
    (withDeleted : Bool) :
    (softDeletePredicates root name withDeleted).map (Predicate.renamed f) =
      softDeletePredicates root (f name) withDeleted := by
  rw [softDeletePredicates, softDeletePredicates]
  split
  · rfl
  · simp only [List.map_map, Function.comp_def, Predicate.renamed, ColumnRef.renamed]

theorem Compiled.renamed_ref_eq (h : Compiled s root o p t)
    (h' : Compiled s root { o with relations := declared } p' t')
    (hsame : Path.SameExpansion o.relations declared) {f : Field}
    (hf : ∀ q, f.relation = some q → q.isCovered o.relations) :
    (t.ref f).renamed (fun name ↦ (p.roleOf name).text) =
      (t'.ref f).renamed fun name ↦ (p'.roleOf name).text := by
  rw [h.renamed_ref hf, h'.renamed_ref fun q hq ↦ hsame.isCovered_iff.1 (hf q hq)]

theorem Compiled.conditions_eq (h : Compiled s root o p t)
    (h' : Compiled s root { o with relations := declared } p' t')
    (hsame : Path.SameExpansion o.relations declared) :
    p.unnamed.predicates = p'.unnamed.predicates ∧ p.bindings = p'.bindings := by
  have hfilters := Conditions.compiled_renamed 0 fun c hc ↦
    h.renamed_ref_eq h' hsame (f := FilterCondition.target c) fun _ hq ↦
      (h.valid.filters c hc).covers hq
  obtain ⟨hsearched, hsearchBindings⟩ := searched_renamed declared fun x hx ↦
    h.renamed_ref_eq h' hsame (h.valid.searchFields x hx).1
  constructor
  · have hpredicates := congrArg (List.map Prod.fst) hfilters
    simp only [List.map_map, Function.comp_def] at hpredicates
    have hunnamed (p : Plan) : p.unnamed.predicates =
        p.predicates.map (Predicate.renamed fun name ↦ (p.roleOf name).text) := rfl
    rw [hunnamed, hunnamed, h.predicates, h'.predicates]
    simp only [List.map_append, List.map_map, Function.comp_def, softDelete_renamed,
      roleOf_rootName]
    rw [hpredicates, hsearched]
  · have hentries := congrArg (List.flatMap Prod.snd) hfilters
    simp only [List.flatMap_map] at hentries
    rw [h.bindings_eq, h'.bindings_eq, hentries, hsearchBindings]

theorem Compiled.order_eq (h : Compiled s root o p t)
    (h' : Compiled s root { o with relations := declared } p' t')
    (hsame : Path.SameExpansion o.relations declared) : p.unnamed.order = p'.unnamed.order := by
  have hunnamed (p : Plan) : p.unnamed.order =
      p.order.map (OrderBy.renamed fun name ↦ (p.roleOf name).text) := rfl
  have hroot : p.roleOf t.root = .root := h.rootName ▸ p.roleOf_rootName
  have hroot' : p'.roleOf t'.root = .root := h'.rootName ▸ p'.roleOf_rootName
  rw [hunnamed, hunnamed, h.order, h'.order, QueryOptions.ordered, QueryOptions.ordered]
  cases hsort : o.sortBy with
  | some x =>
    have href := h.renamed_ref_eq h' hsame (h.valid.sortBy x hsort).1
    simp only [List.map_cons, List.map_nil, OrderBy.renamed, href]
  | none =>
    dsimp only
    split
    · simp only [List.map_cons, List.map_nil, OrderBy.renamed, ColumnRef.renamed, hroot, hroot']
    · simp only [List.map_map, Function.comp_def, OrderBy.renamed, ColumnRef.renamed, hroot,
        hroot']

theorem Compiled.sameUpToNames (h : Compiled s root o p t)
    (h' : Compiled s root { o with relations := declared } p' t')
    (hsame : Path.SameExpansion o.relations declared) : p.SameUpToNames p' where
  joins := h.joins_perm h' hsame
  select := by
    rw [h.unnamed_select, h'.unnamed_select]
    exact ((h.joins_perm h' hsame).flatMap_right _).append_left _
  others := by
    obtain ⟨hpredicates, hbindings⟩ := h.conditions_eq h' hsame
    have hroot (p : Plan) : p.unnamed.rootName = Role.root.text :=
      congrArg Role.text p.roleOf_rootName
    rw [Plan.mk.injEq]
    exact ⟨h.rootEntity.trans h'.rootEntity.symm, h.rootTable.trans h'.rootTable.symm,
      (hroot p).trans (hroot p').symm, h.primaryKey.trans h'.primaryKey.symm, rfl, rfl,
      hpredicates, hbindings, h.order_eq h' hsame, h.window.trans h'.window.symm⟩

theorem exists_compile_of_sameExpansion {name : String} (h : compile s name o = .ok p)
    (hsame : Path.SameExpansion o.relations declared) :
    ∃ p', compile s name { o with relations := declared } = .ok p' := by
  obtain ⟨root, -, -, hroot, hv, -⟩ := compile_eq_ok.1 h
  exact exists_compile (requireEntity_eq_ok.1 hroot)
    (QueryOptions.validate_eq_ok.2 (hv.of_sameExpansion hsame))

/-- Relation lists with the same paths on the way to their members are accepted alike, and the two
plans are the same up to the order of joins and the names of tables. -/
theorem compile_sameExpansion {name : String}
    (hsame : Path.SameExpansion o.relations declared) :
    ((∃ p, compile s name o = .ok p) ↔
      ∃ p', compile s name { o with relations := declared } = .ok p') ∧
    ∀ p p', compile s name o = .ok p →
      compile s name { o with relations := declared } = .ok p' → p.SameUpToNames p' := by
  refine ⟨⟨?_, ?_⟩, ?_⟩
  · rintro ⟨p, hp⟩
    exact exists_compile_of_sameExpansion hp hsame
  · rintro ⟨p', hp'⟩
    exact exists_compile_of_sameExpansion (o := { o with relations := declared }) hp' hsame.symm
  · intro p p' hp hp'
    obtain ⟨root, t, hroot, hc⟩ := compile_ok hp
    obtain ⟨root', t', hroot', hc'⟩ := compile_ok hp'
    obtain rfl : root = root' := Except.ok.inj (hroot.symm.trans hroot')
    exact hc.sameUpToNames hc' hsame

def teams : Schema :=
  .ofEntities [
    { name := "Team", table := "teams", primaryKey := ["id"]
      columns := [⟨"id", false⟩, ⟨"leadId", false⟩, ⟨"homeId", false⟩]
      relations := [⟨"lead", "Person", .manyToOne, [⟨"leadId", "id"⟩], none, none⟩,
        ⟨"lead_home", "Ground", .manyToMany, [⟨"id", "id"⟩],
          some ⟨"team_homes", "teamId", "groundId"⟩, none⟩]
      softDelete := none },
    { name := "Person", table := "persons", primaryKey := ["id"]
      columns := [⟨"id", false⟩, ⟨"cityId", false⟩]
      relations := [⟨"home_city", "City", .manyToOne, [⟨"cityId", "id"⟩], none, none⟩]
      softDelete := none },
    { name := "Ground", table := "grounds", primaryKey := ["id"]
      columns := [⟨"id", false⟩, ⟨"cityId", false⟩]
      relations := [⟨"city", "City", .manyToOne, [⟨"cityId", "id"⟩], none, none⟩]
      softDelete := none },
    { name := "City", table := "cities", primaryKey := ["id"]
      columns := [⟨"id", false⟩, ⟨"name", false⟩, ⟨"deletedAt", false⟩], relations := []
      softDelete := some "deletedAt" }]

def teamOptions : QueryOptions :=
  { relations := ["lead", "lead_home.city", "lead.home_city"]
    search := some "x", searchFields := ["lead.home_city.name"]
    sortBy := some "lead_home.city.name"
    filters := [⟨"name", .equals, .text "a", some "lead_home.city"⟩] }

def teamRelations : List Path :=
  ["lead_home", "lead.home_city", "lead_home.city", "lead.home_city"]

theorem compile_sameExpansion_teams : ∃ p p', compile teams "Team" teamOptions = .ok p ∧
    compile teams "Team" { teamOptions with relations := teamRelations } = .ok p' ∧
    p.names = ["team", "lead", "lead_home", "lead_home_link", "lead_home_city",
      "lead_home_city_2"] ∧
    p'.names = ["team", "lead_home", "lead_home_link", "lead", "lead_home_city",
      "lead_home_city_2"] ∧
    p.SameUpToNames p' := by
  have he : Path.expand teamOptions.relations =
      ["lead", "lead_home", "lead_home.city", "lead.home_city"] :=
    Path.expand_eq_of_ascending (by decide +kernel)
  have he' : Path.expand teamRelations =
      ["lead_home", "lead", "lead.home_city", "lead_home.city"] :=
    Path.expand_eq_of_ascending (by decide +kernel)
  have hsame : Path.SameExpansion teamOptions.relations teamRelations := by
    intro q
    rw [← Path.mem_expand_iff, ← Path.mem_expand_iff, he, he']
    simp only [List.mem_cons, List.not_mem_nil, or_false]
    tauto
  have hnames : (compile teams "Team" teamOptions).toOption.map names = some ["team", "lead",
      "lead_home", "lead_home_link", "lead_home_city", "lead_home_city_2"] := by
    simp only [compile, ofChecked, JoinPlanner.plan, he]
    decide +kernel
  have hnames' : (compile teams "Team" { teamOptions with relations := teamRelations }).toOption.map
      names = some ["team", "lead_home", "lead_home_link", "lead", "lead_home_city",
        "lead_home_city_2"] := by
    simp only [compile, ofChecked, JoinPlanner.plan, he']
    decide +kernel
  obtain ⟨p, hp, hn⟩ := exists_ok_of_map hnames
  obtain ⟨p', hp', hn'⟩ := exists_ok_of_map hnames'
  exact ⟨p, p', hp, hp', hn, hn', (compile_sameExpansion hsame).2 p p' hp hp'⟩

end Plan

end Listing
