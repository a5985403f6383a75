import Listing.Proofs.Firsts
import Listing.Statement.Render
import Mathlib.Data.List.MinMax
import Mathlib.Data.List.Pairwise
import Mathlib.Order.WithBot

namespace Listing

section Cells

variable {V : Type} [LinearOrder V]

namespace SortOrder

/-- Whether one cell comes before another one; ⊤ is the cell with no value. -/
def Before : SortOrder → WithTop V → WithTop V → Prop
  | asc, a, b => a < b
  | desc, a, b => b < a

instance (d : SortOrder) (a b : WithTop V) : Decidable (d.Before a b) :=
  match d with
  | asc => inferInstanceAs (Decidable (a < b))
  | desc => inferInstanceAs (Decidable (b < a))

variable {d : SortOrder} {a b c : WithTop V}

theorem Before.asymm (h : d.Before a b) : ¬ d.Before b a := by
  cases d
  · exact lt_asymm h
  · exact lt_asymm h

theorem Before.trans (h : d.Before a b) (h' : d.Before b c) : d.Before a c := by
  cases d
  · exact lt_trans h h'
  · exact lt_trans h' h

theorem before_irrefl (d : SortOrder) (a : WithTop V) : ¬ d.Before a a := fun h ↦ h.asymm h

theorem before_or_eq (d : SortOrder) (a b : WithTop V) :
    d.Before a b ∨ a = b ∨ d.Before b a := by
  cases d
  · exact lt_trichotomy a b
  · rcases lt_trichotomy a b with h | h | h
    · exact .inr (.inr h)
    · exact .inr (.inl h)
    · exact .inl h

/-- A cell that comes first among some, or one of those that do. -/
def IsLead (d : SortOrder) (cells : List (WithTop V)) (a : WithTop V) : Prop :=
  a ∈ cells ∧ ∀ b ∈ cells, a = b ∨ d.Before a b

end SortOrder

/-- A function of the values of some cells, which is none where there are no values. -/
inductive Aggregate
  | min
  | max

namespace Aggregate

def sql : Aggregate → String
  | min => "MIN("
  | max => "MAX("

def of (a : Aggregate) (cells : List (WithTop V)) : WithTop V :=
  let values := cells.filter (· ≠ ⊤)
  match a with
  | min => values.min?.getD ⊤
  | max => values.max?.getD ⊤

end Aggregate

/-- What a group of rows is ordered by. -/
def OrderBy.aggregate (o : OrderBy) : Aggregate :=
  match o.order with
  | .asc => .min
  | .desc => .max

theorem Draft.ordered_true (o : OrderBy) : Draft.ordered true o =
    .word o.aggregate.sql ::
      (Draft.column o.column ++ [.word ")", .word " ", .word o.order.sql]) := by
  obtain ⟨column, _ | _⟩ := o <;> rfl

namespace SortOrder

variable {cells : List (WithTop V)}

theorem isLead_top_of_forall (d : SortOrder) (hne : cells ≠ []) (h : ∀ a ∈ cells, a = ⊤) :
    d.IsLead cells ⊤ := by
  obtain ⟨a, ha⟩ := List.exists_mem_of_ne_nil cells hne
  exact ⟨h a ha ▸ ha, fun b hb ↦ .inl (h b hb).symm⟩

theorem isLead_min (hne : cells ≠ []) : IsLead .asc cells (Aggregate.min.of cells) := by
  show IsLead .asc cells ((cells.filter (· ≠ ⊤)).min?.getD ⊤)
  cases hmin : (cells.filter (· ≠ ⊤)).min? with
  | none =>
    refine isLead_top_of_forall .asc hne fun a ha ↦ ?_
    have hempty := List.min?_eq_none_iff.1 hmin
    simpa using List.filter_eq_nil_iff.1 hempty a ha
  | some v =>
    obtain ⟨hv, hleast⟩ := List.min?_eq_some_iff.1 hmin
    simp only [List.mem_filter, decide_eq_true_eq] at hv hleast
    refine ⟨hv.1, fun b hb ↦ ?_⟩
    by_cases htop : b = ⊤
    · exact .inr (htop ▸ lt_top_iff_ne_top.2 hv.2)
    · exact (hleast b ⟨hb, htop⟩).eq_or_lt

theorem isLead_top (h : ⊤ ∈ cells) : IsLead .desc cells ⊤ :=
  ⟨h, fun b _ ↦ (eq_or_ne b ⊤).imp Eq.symm fun hb ↦ lt_top_iff_ne_top.2 hb⟩

theorem isLead_max (hne : cells ≠ []) (h : ⊤ ∉ cells ∨ ∀ a ∈ cells, a = ⊤) :
    IsLead .desc cells (Aggregate.max.of cells) := by
  show IsLead .desc cells ((cells.filter (· ≠ ⊤)).max?.getD ⊤)
  rcases h with htop | hall
  · have hvalues : cells.filter (· ≠ ⊤) = cells :=
      List.filter_eq_self.2 fun a ha ↦ by simpa using fun e : a = ⊤ ↦ htop (e ▸ ha)
    rw [hvalues]
    cases hmax : cells.max? with
    | none => exact absurd (List.max?_eq_none_iff.1 hmax) hne
    | some v =>
      obtain ⟨hv, hgreatest⟩ := List.max?_eq_some_iff.1 hmax
      exact ⟨hv, fun b hb ↦ (hgreatest b hb).eq_or_lt.imp Eq.symm id⟩
  · have hvalues : cells.filter (· ≠ ⊤) = [] :=
      List.filter_eq_nil_iff.2 fun a ha ↦ by simp [hall a ha]
    rw [hvalues]
    exact isLead_top_of_forall .desc hne hall

end SortOrder

theorem SortOrder.exists_isLead (d : SortOrder) {cells : List (WithTop V)} (hne : cells ≠ []) :
    ∃ a, d.IsLead cells a := by
  cases d with
  | asc => exact ⟨_, isLead_min hne⟩
  | desc =>
    by_cases htop : ⊤ ∈ cells
    · exact ⟨_, isLead_top htop⟩
    · exact ⟨_, isLead_max hne (.inl htop)⟩

theorem Aggregate.of_const (a : Aggregate) {cells : List (WithTop V)} {v : WithTop V}
    (hne : cells ≠ []) (h : ∀ c ∈ cells, c = v) : a.of cells = v := by
  cases a with
  | min => exact h _ (SortOrder.isLead_min hne).1
  | max =>
    refine h _ (SortOrder.isLead_max hne ?_).1
    by_cases hv : v = ⊤
    · exact .inr fun c hc ↦ (h c hc).trans hv
    · exact .inl fun htop ↦ hv (h ⊤ htop).symm

end Cells

section Rows

variable {V α β : Type} [LinearOrder V]

/-- Whether `a` may come before `b` by the given columns, of which the first counts most. -/
def Precedes (cell : OrderBy → α → WithTop V) : List OrderBy → α → α → Prop
  | [], _, _ => True
  | o :: os, a, b =>
    o.order.Before (cell o a) (cell o b) ∨ cell o a = cell o b ∧ Precedes cell os a b

instance decidablePrecedes (cell : OrderBy → α → WithTop V) :
    ∀ (os : List OrderBy) (a b : α), Decidable (Precedes cell os a b)
  | [], _, _ => isTrue trivial
  | _ :: os, a, b =>
    have := decidablePrecedes cell os a b
    inferInstanceAs (Decidable (_ ∨ _ ∧ _))

namespace Precedes

variable {cell : OrderBy → α → WithTop V} {os : List OrderBy} {a b : α}

theorem total (cell : OrderBy → α → WithTop V) (os : List OrderBy) (a b : α) :
    Precedes cell os a b ∨ Precedes cell os b a := by
  induction os with
  | nil => exact .inl trivial
  | cons o os ih =>
    rcases o.order.before_or_eq (cell o a) (cell o b) with h | h | h
    · exact .inl (.inl h)
    · exact ih.imp (fun hab ↦ .inr ⟨h, hab⟩) fun hba ↦ .inr ⟨h.symm, hba⟩
    · exact .inr (.inl h)

theorem trans {c : α} (h : Precedes cell os a b) (h' : Precedes cell os b c) :
    Precedes cell os a c := by
  induction os with
  | nil => trivial
  | cons o os ih =>
    rcases h with hab | ⟨heq, hab⟩
    · rcases h' with hbc | ⟨heq', -⟩
      · exact .inl (hab.trans hbc)
      · exact .inl (heq' ▸ hab)
    · rcases h' with hbc | ⟨heq', hbc⟩
      · exact .inl (heq ▸ hbc)
      · exact .inr ⟨heq.trans heq', ih hab hbc⟩

theorem exists_sorted (cell : OrderBy → α → WithTop V) (os : List OrderBy) (l : List α) :
    ∃ sorted : List α, sorted.Perm l ∧ sorted.Pairwise (Precedes cell os) := by
  let le (a b : α) : Bool := decide (Precedes cell os a b)
  have hsorted : (l.mergeSort le).Pairwise fun a b ↦ le a b :=
    List.pairwise_mergeSort (by simpa [le] using fun a b c ↦ trans)
      (by simpa [le] using total cell os) l
  exact ⟨_, List.mergeSort_perm l le, hsorted.imp of_decide_eq_true⟩

theorem antisymm (h : Precedes cell os a b) (h' : Precedes cell os b a) :
    ∀ o ∈ os, cell o a = cell o b := by
  induction os with
  | nil => simp
  | cons o os ih =>
    rcases h with hab | ⟨heq, hab⟩
    · rcases h' with hba | ⟨heq, -⟩
      · exact absurd hba hab.asymm
      · exact absurd hab (heq ▸ SortOrder.before_irrefl _ _)
    · rcases h' with hba | ⟨-, hba⟩
      · exact absurd hba (heq ▸ SortOrder.before_irrefl _ _)
      · intro o' ho'
        rcases List.mem_cons.1 ho' with rfl | ho'
        · exact heq
        · exact ih hab hba o' ho'

theorem congr {cell' : OrderBy → β → WithTop V} {a' b' : β} (ha : ∀ o ∈ os, cell o a = cell' o a')
    (hb : ∀ o ∈ os, cell o b = cell' o b') :
    Precedes cell os a b ↔ Precedes cell' os a' b' := by
  induction os with
  | nil => exact Iff.rfl
  | cons o os ih =>
    rw [Precedes, Precedes, ha o List.mem_cons_self, hb o List.mem_cons_self,
      ih (fun o' ho' ↦ ha o' (List.mem_cons_of_mem _ ho'))
        fun o' ho' ↦ hb o' (List.mem_cons_of_mem _ ho')]

end Precedes

end Rows

section

variable {β : Type}

/-- Two orders of the same things are one where the second one keeps the first. -/
theorem eq_iff_of_pairwise {l l' : List β} {lt lt' : β → β → Prop} (hperm : l'.Perm l)
    (hnodup : l.Nodup) (hl : l.Pairwise lt) (hl' : l'.Pairwise lt')
    (hlt : ∀ a ∈ l, ∀ b ∈ l, lt a b → lt b a → a = b)
    (hlt' : ∀ a ∈ l, ∀ b ∈ l, lt' a b → lt' b a → a = b) :
    l = l' ↔ ∀ a ∈ l, ∀ b ∈ l, a ≠ b → lt a b → lt' a b := by
  constructor
  · rintro rfl a ha b hb hne hab
    -- of two elements of a list one comes first, in both orders
    let inOrder (a b : β) : Prop := (lt a b ∧ lt' a b) ∨ lt b a ∧ lt' b a
    have hsymm : Std.Symm inOrder := ⟨fun _ _ ↦ Or.symm⟩
    have hpairs : l.Pairwise inOrder := (hl.and hl').imp .inl
    rcases hpairs.forall ha hb hne with ⟨-, hab'⟩ | ⟨hba, -⟩
    · exact hab'
    · exact absurd (hlt a ha b hb hab hba) hne
  · intro h
    have hsame : l.Pairwise lt' :=
      (hl.and hnodup).imp_of_mem fun {a b} ha hb ⟨hab, hne⟩ ↦ h a ha b hb hne hab
    refine List.Perm.eq_of_pairwise (fun a b ha hb ↦ ?_) hsame hl' hperm.symm
    exact hlt' a ha b (hperm.mem_iff.1 hb)

end

end Listing
