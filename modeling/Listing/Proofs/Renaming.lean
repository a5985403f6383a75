import Listing.Proofs.Scoping

namespace Listing

/-- What a table of a statement is there for. -/
inductive Role
  | root
  | path (p : Path)
  /-- The table of pairs on the way to the last relation of a path. -/
  | link (p : Path)
  /-- No table has the name. -/
  | other (name : String)
  deriving DecidableEq, Repr

namespace Role

def text : Role → String
  | root => "root"
  | path p => "path " ++ p
  | link p => "link " ++ p
  | other name => "other " ++ name

def ofPath? : Option Path → Role
  | none => root
  | some p => path p

theorem ofPath?_injective : Function.Injective ofPath? := by
  rintro (_ | p) (_ | q) h <;> simp_all [ofPath?]

end Role

def ColumnRef.renamed (f : String → String) (c : ColumnRef) : ColumnRef := ⟨f c.table, c.column⟩

namespace Predicate

mutual

def renamed (f : String → String) : Predicate → Predicate
  | compare column comparison param => compare (column.renamed f) comparison param
  | ilike column param => ilike (column.renamed f) param
  | inList column negated param empty => inList (column.renamed f) negated param empty
  | between column low high => between (column.renamed f) low high
  | null column negated => null (column.renamed f) negated
  | any group => any (groupRenamed f group)

def groupRenamed (f : String → String) : List Predicate → List Predicate
  | [] => []
  | q :: qs => q.renamed f :: groupRenamed f qs

end

theorem groupRenamed_eq (f : String → String) (group : List Predicate) :
    groupRenamed f group = group.map (renamed f) := by
  induction group with
  | nil => rfl
  | cons q qs ih => rw [groupRenamed, ih, List.map_cons]

end Predicate

def Link.renamed (f : String → String) (l : Link) : Link :=
  { l with name := f l.name, onParent := (l.onParent.1.renamed f, l.onParent.2.renamed f) }

def Join.renamed (f : String → String) (j : Join) : Join :=
  { j with
    name := f j.name
    parentName := f j.parentName
    on := j.on.map fun pair ↦ (pair.1.renamed f, pair.2.renamed f)
    softDelete := j.softDelete.map (·.renamed f)
    link := j.link.map (·.renamed f) }

def SelectColumn.renamed (f : String → String) (c : SelectColumn) : SelectColumn :=
  { c with column := c.column.renamed f }

def OrderBy.renamed (f : String → String) (o : OrderBy) : OrderBy :=
  { o with column := o.column.renamed f }

namespace Plan

def renamed (f : String → String) (p : Plan) : Plan :=
  { p with
    rootName := f p.rootName
    joins := p.joins.map (·.renamed f)
    select := p.select.map (·.renamed f)
    predicates := p.predicates.map (·.renamed f)
    order := p.order.map (·.renamed f) }

/-- What the tables of the statement are there for, by their names. -/
def roles (p : Plan) : Keyed Role :=
  (p.rootName, .root) :: p.joins.flatMap fun j ↦
    (j.name, .path j.path) :: j.link.toList.map fun l ↦ (l.name, .link j.path)

def roleOf (p : Plan) (name : String) : Role := (p.roles.get? name).getD (.other name)

/-- The plan with the text of its role for each name. -/
def unnamed (p : Plan) : Plan := p.renamed fun name ↦ (p.roleOf name).text

variable {p : Plan} {j : Join}

theorem keys_roles (p : Plan) : p.roles.keys = p.names := by
  rw [roles, Keyed.keys_cons, names, Keyed.keys, List.map_flatMap]
  simp only [List.map_cons, List.map_map, Function.comp_def]
  rfl

theorem roleOf_eq (hn : p.names.Nodup) {name : String} {r : Role} (h : (name, r) ∈ p.roles) :
    p.roleOf name = r := by
  rw [roleOf, Keyed.get?_of_mem (p.keys_roles ▸ hn) h]
  rfl

theorem roleOf_rootName (p : Plan) : p.roleOf p.rootName = .root := by
  rw [roleOf, roles, Keyed.get?_cons, if_pos rfl]
  rfl

theorem roleOf_name (hn : p.names.Nodup) (hj : j ∈ p.joins) : p.roleOf j.name = .path j.path :=
  roleOf_eq hn (List.mem_cons_of_mem _ (List.mem_flatMap_of_mem hj List.mem_cons_self))

theorem roleOf_link (hn : p.names.Nodup) (hj : j ∈ p.joins) {l : Link} (hl : j.link = some l) :
    p.roleOf l.name = .link j.path := by
  refine roleOf_eq hn (List.mem_cons_of_mem _ (List.mem_flatMap_of_mem hj ?_))
  simp [hl]

end Plan

theorem SelectColumn.renamed_ofRoot (f : String → String) (name column : String) :
    (ofRoot name column).renamed f = ofRoot (f name) column := rfl

theorem Join.renamed_selected (f : String → String) (joins : List Join) :
    (joins.flatMap fun j ↦ j.columns.map (SelectColumn.ofJoin j.path j.name)).map
        (·.renamed f) =
      (joins.map (·.renamed f)).flatMap fun j ↦
        j.columns.map (SelectColumn.ofJoin j.path j.name) := by
  rw [List.map_flatMap, List.flatMap_map]
  simp only [List.map_map]
  rfl

theorem FilterCondition.compile_renamed (f : String → String) (c : FilterCondition) (index : Nat)
    (column : ColumnRef) : c.compile index (column.renamed f) =
      (c.compile index column).map fun compiled ↦ (compiled.1.renamed f, compiled.2) := by
  simp only [compile]
  cases c.operator with
  | between => simp [Predicate.renamed, Function.comp_def]
  | equals | notEquals | like | ilike | isIn | notIn | gt | gte | lt | lte | isNull | isNotNull =>
    rfl

namespace Conditions

variable {t t' : AliasTable} {f f' : String → String}

theorem compiled_renamed {fs : List FilterCondition} (index : Nat)
    (h : ∀ c ∈ fs, (t.ref c.target).renamed f = (t'.ref c.target).renamed f') :
    (compiled t index fs).map (fun c ↦ (c.1.renamed f, c.2)) =
      (compiled t' index fs).map fun c ↦ (c.1.renamed f', c.2) := by
  induction fs generalizing index with
  | nil => rfl
  | cons c fs ih =>
    obtain ⟨hc, hfs⟩ := List.forall_mem_cons.1 h
    have hfirst := congrArg Option.toList <| (c.compile_renamed f index (t.ref c.target)).symm.trans
      (hc ▸ c.compile_renamed f' index (t'.ref c.target))
    rw [Option.toList_map, Option.toList_map] at hfirst
    rw [compiled_cons, compiled_cons, List.map_append, List.map_append, hfirst, ih (index + 1) hfs]

theorem searching_renamed (f : String → String) (term : String) (columns : List ColumnRef) :
    (searching term columns).predicates.map (·.renamed f) =
      (searching term (columns.map (·.renamed f))).predicates := by
  simp only [searching, List.map_cons, List.map_nil, Predicate.renamed, Predicate.groupRenamed_eq,
    List.map_map, List.length_map, List.zip_map_left]
  rfl

theorem searching_bindings_congr (f : String → String) (term : String)
    (columns : List ColumnRef) : (searching term (columns.map (·.renamed f))).bindings =
      (searching term columns).bindings := by
  simp only [searching, List.length_map]

end Conditions

end Listing
