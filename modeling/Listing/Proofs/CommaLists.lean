import Listing.Plan.Compile
import Listing.Proofs.Text

namespace Listing

namespace Text

/-- What can stand between commas and be found again: some text without a comma, and without blanks
at its ends. -/
structure IsItem (s : String) : Prop where
  nonempty : s ≠ ""
  comma : ',' ∉ s.toList
  first : ∀ c ∈ s.toList.head?, isBlank c = false
  last : ∀ c ∈ s.toList.getLast?, isBlank c = false

instance (s : String) : Decidable (IsItem s) :=
  decidable_of_iff (s ≠ "" ∧ ',' ∉ s.toList ∧ s.toList.head?.all (!isBlank ·) ∧
      s.toList.getLast?.all (!isBlank ·)) <| by
    simp only [Option.all_eq_true, Bool.not_eq_true']
    exact ⟨fun ⟨hne, hcomma, hfirst, hlast⟩ ↦ ⟨hne, hcomma, hfirst, hlast⟩,
      fun h ↦ ⟨h.nonempty, h.comma, h.first, h.last⟩⟩

def IsSeparator (separator : String) : Prop :=
  ∃ left right, isBlankText left ∧ isBlankText right ∧ separator = left ++ "," ++ right

theorem dropWhile_append_of_head {cs ds : List Char} (hne : cs ≠ [])
    (h : ∀ c ∈ cs.head?, isBlank c = false) : (cs ++ ds).dropWhile isBlank = cs ++ ds := by
  obtain ⟨c, cs, rfl⟩ := List.exists_cons_of_ne_nil hne
  exact List.dropWhile_cons_of_neg (by simp [h c rfl])

theorem trim_around {left s right : String} (hs : IsItem s) (hleft : isBlankText left)
    (hright : isBlankText right) : trim (left ++ s ++ right) = s := by
  have hne : s.toList ≠ [] := by simpa using hs.nonempty
  have hreverse : (s.toList.reverse ++ []).dropWhile isBlank = s.toList.reverse ++ [] :=
    dropWhile_append_of_head (by simpa using hne) (by simpa using hs.last)
  rw [trim, trimLeft, String.toList_append, String.toList_append, List.append_assoc,
    List.dropWhile_append_of_pos (List.all_eq_true.1 hleft), dropWhile_append_of_head hne hs.first,
    trimRight, List.reverse_append,
    List.dropWhile_append_of_pos fun c hc ↦ List.all_eq_true.1 hright c (List.mem_reverse.1 hc)]
  rw [List.append_nil] at hreverse
  rw [hreverse, List.reverse_reverse, String.ofList_toList]

theorem comma_not_mem {s : String} (h : isBlankText s) : ',' ∉ s.toList :=
  fun hmem ↦ absurd (List.all_eq_true.1 h ',' hmem) (by decide)

end Text

namespace FilterValue

open Text

variable {left right : String} {texts : List String}

theorem commaParts_append (s s' : String) :
    commaParts (s ++ "," ++ s') = commaParts s ++ commaParts s' := by
  rw [commaParts, show split ',' (s ++ "," ++ s') = split ',' s ++ split ',' s' from
    split_append ',' s s', List.map_append, List.filter_append]
  rfl

theorem commaParts_around {s : String} (hs : IsItem s) (hleft : isBlankText left)
    (hright : isBlankText right) : commaParts (left ++ s ++ right) = [s] := by
  have hcomma : ',' ∉ (left ++ s ++ right).toList := by
    simp [comma_not_mem hleft, comma_not_mem hright, hs.comma]
  rw [commaParts, split_eq_singleton ',' hcomma, List.map_singleton, trim_around hs hleft hright]
  simp [hs.nonempty]

theorem commaParts_join (hne : texts ≠ []) (h : ∀ s ∈ texts, IsItem s) (hleft : isBlankText left)
    (hright : isBlankText right) {before : String} (hbefore : isBlankText before) :
    commaParts (before ++ join (left ++ "," ++ right) texts) = texts := by
  induction texts generalizing before with
  | nil => exact absurd rfl hne
  | cons s texts ih =>
    obtain ⟨hs, hrest⟩ := List.forall_mem_cons.1 h
    cases texts with
    | nil =>
      have hpart : commaParts (before ++ s ++ "") = [s] := commaParts_around hs hbefore rfl
      rw [String.append_empty] at hpart
      rwa [join_singleton]
    | cons s' texts =>
      have hsplit : before ++ join (left ++ "," ++ right) (s :: s' :: texts) =
          before ++ s ++ left ++ "," ++ (right ++ join (left ++ "," ++ right) (s' :: texts)) := by
        simp only [join_cons_cons, String.append_assoc]
      rw [hsplit, commaParts_append, commaParts_around hs hbefore hleft,
        ih (List.cons_ne_nil _ _) hrest hright]
      rfl

theorem members_join (hne : texts ≠ []) (h : ∀ s ∈ texts, IsItem s) {separator : String}
    (hseparator : IsSeparator separator) :
    (text (join separator texts)).members = (list (texts.map text)).members := by
  obtain ⟨left, right, hleft, hright, rfl⟩ := hseparator
  have hparts : commaParts ("" ++ join (left ++ "," ++ right) texts) = texts :=
    commaParts_join hne h hleft hright rfl
  rw [String.empty_append] at hparts
  rw [members, members, hparts]
  by_cases hcomma : (join (left ++ "," ++ right) texts).toList.contains ','
  · rw [if_pos hcomma]
  · rw [if_neg hcomma]
    cases texts with
    | nil => exact absurd rfl hne
    | cons s texts =>
      cases texts with
      | nil => rw [join_singleton]; rfl
      | cons s' texts => exact absurd (by simp [join_cons_cons]) hcomma

end FilterValue

namespace FilterCondition

def IsListing (c : FilterCondition) : Prop := c.operator = .isIn ∨ c.operator = .notIn

/-- Of its value a filter by a list takes nothing but the members. -/
theorem IsListing.compile_eq {c : FilterCondition} (h : c.IsListing) {v w : FilterValue}
    (hmembers : v.members = w.members) (index : Nat) (column : ColumnRef) :
    compile { c with value := v } index column = compile { c with value := w } index column := by
  rcases h with h | h <;> simp only [compile, h, hmembers]

end FilterCondition

namespace Conditions

theorem compileFrom_eq {f g : FilterCondition}
    (hcompile : ∀ index column, f.compile index column = g.compile index column)
    (hrelation : f.relation = g.relation) (hfield : f.field = g.field)
    (before after : List FilterCondition) (t : AliasTable) (index : Nat) (bound : Bindings) :
    compileFrom t index bound (before ++ f :: after) =
      compileFrom t index bound (before ++ g :: after) := by
  induction before generalizing t index bound with
  | nil => simp only [List.nil_append, compileFrom, hrelation, hfield, hcompile]
  | cons e before ih => simp only [List.cons_append, compileFrom, ih]

end Conditions

def QueryOptions.filteredBy (o : QueryOptions) (filters : List FilterCondition) : QueryOptions :=
  { o with filters }

namespace QueryOptions

theorem validate_filteredBy (s : Schema) (root : Entity) (o : QueryOptions)
    (filters : List FilterCondition) : (o.filteredBy filters).validate s root =
      (o.filteredBy []).validate s root >>= fun _ ↦
        whileDoing "Validating filters" (filters.forM (checkFilter s root o.relations)) := by
  have hnone : whileDoing "Validating filters" (List.forM [] (checkFilter s root o.relations)) =
      .ok () := rfl
  have hbounds (fs : List FilterCondition) : (o.filteredBy fs).checkBounds = o.checkBounds := rfl
  have hselect (fs : List FilterCondition) :
      checkSelect s root (o.filteredBy fs) = checkSelect s root o := rfl
  simp only [validate, hbounds, hselect]
  simp only [filteredBy, hnone, bind_assoc]
  rfl

end QueryOptions

namespace Plan

/-- The check of a filter does not look at its value. -/
theorem compile_eq_of_value {c : FilterCondition} {v w : FilterValue}
    {before after : List FilterCondition}
    (h : ∀ t, Conditions.ofFilters (before ++ { c with value := v } :: after) t =
      Conditions.ofFilters (before ++ { c with value := w } :: after) t)
    (s : Schema) (name : String) (o : QueryOptions) :
    compile s name (o.filteredBy (before ++ { c with value := v } :: after)) =
      compile s name (o.filteredBy (before ++ { c with value := w } :: after)) := by
  have hvalid (root : Entity) :
      (o.filteredBy (before ++ { c with value := v } :: after)).validate s root =
        (o.filteredBy (before ++ { c with value := w } :: after)).validate s root := by
    rw [QueryOptions.validate_filteredBy,
      QueryOptions.validate_filteredBy s root o (before ++ { c with value := w } :: after)]
    simp only [List.forM_eq_forM, List.forM_append]
    rfl
  have hchecked (root : Entity) :
      ofChecked s root (o.filteredBy (before ++ { c with value := v } :: after)) =
        ofChecked s root (o.filteredBy (before ++ { c with value := w } :: after)) := by
    simp only [ofChecked, QueryOptions.filteredBy, h]
    rfl
  simp only [compile, hvalid, hchecked]

end Plan

namespace FilterCondition

open Text

variable {separator : String} {texts : List String} {c : FilterCondition}

/-- A filter by a list, and by the same list in one text. -/
def listing (c : FilterCondition) (texts : List String) : FilterCondition :=
  { c with value := .list (texts.map .text) }

def joining (c : FilterCondition) (separator : String) (texts : List String) : FilterCondition :=
  { c with value := .text (join separator texts) }

theorem compile_listing (hc : c.IsListing) (hne : texts ≠ []) (index : Nat) (column : ColumnRef) :
    (c.listing texts).compile index column =
      some (.inList column (c.operator = .notIn) (parameter index) false,
        [(parameter index, .list (texts.map .text))]) := by
  obtain ⟨s, texts, rfl⟩ := List.exists_cons_of_ne_nil hne
  rcases hc with hc | hc <;> simp [compile, listing, hc, FilterValue.members]

/-- A filter by texts joined by commas, with or without blanks around these, compiles like that by
the list of the texts, among any other filters and in any plan, and it is these texts that are
bound. -/
theorem compile_joining (hne : texts ≠ []) (hitems : ∀ s ∈ texts, IsItem s)
    (hseparator : IsSeparator separator) (hc : c.IsListing) :
    (∀ index column, (c.joining separator texts).compile index column =
      some (.inList column (c.operator = .notIn) (parameter index) false,
        [(parameter index, .list (texts.map .text))])) ∧
    ∀ before after,
      (∀ t, Conditions.ofFilters (before ++ c.joining separator texts :: after) t =
        Conditions.ofFilters (before ++ c.listing texts :: after) t) ∧
      ∀ s name (o : QueryOptions),
        Plan.compile s name (o.filteredBy (before ++ c.joining separator texts :: after)) =
          Plan.compile s name (o.filteredBy (before ++ c.listing texts :: after)) := by
  have hcompile (index : Nat) (column : ColumnRef) :
      (c.joining separator texts).compile index column = (c.listing texts).compile index column :=
    hc.compile_eq (FilterValue.members_join hne hitems hseparator) index column
  have hfilters (before after : List FilterCondition) (t : AliasTable) :
      Conditions.ofFilters (before ++ c.joining separator texts :: after) t =
        Conditions.ofFilters (before ++ c.listing texts :: after) t :=
    Conditions.compileFrom_eq hcompile rfl rfl before after t 0 []
  exact ⟨fun index column ↦ (hcompile index column).trans (compile_listing hc hne index column),
    fun before after ↦ ⟨hfilters before after, Plan.compile_eq_of_value (hfilters before after)⟩⟩

def byRole : FilterCondition := ⟨"role", .notIn, .null, some "employee"⟩

theorem compile_joining_roles :
    byRole.joining "\t,\u3000 " ["on call", "ops"] =
      ⟨"role", .notIn, .text "on call\t,\u3000 ops", some "employee"⟩ ∧
    Conditions.ofFilters [⟨"id", .gt, .int 1, none⟩,
        byRole.joining "\t,\u3000 " ["on call", "ops"]] (.ofRoot "Payment") =
      Conditions.ofFilters [⟨"id", .gt, .int 1, none⟩, byRole.listing ["on call", "ops"]]
        (.ofRoot "Payment") := by
  have hitems : ∀ s ∈ ["on call", "ops"], IsItem s := by decide +kernel
  have hseparator : IsSeparator "\t,\u3000 " :=
    ⟨"\t", "\u3000 ", by decide +kernel, by decide +kernel, by decide +kernel⟩
  have hlisting : byRole.IsListing := .inr rfl
  obtain ⟨-, hlists⟩ := compile_joining (by decide) hitems hseparator hlisting
  exact ⟨rfl, (hlists [⟨"id", .gt, .int 1, none⟩] []).1 (.ofRoot "Payment")⟩

end FilterCondition

end Listing
