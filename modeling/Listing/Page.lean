import Listing.Number.Range

namespace Listing

open Number

structure Window where
  skip : Nat
  take : Nat
  deriving DecidableEq, Repr

namespace Window

def ofPage (page limit : Nat) : Window := ⟨min ((page - 1) * limit) maxWord, limit⟩

def sql (w : Window) : String := s!"LIMIT {w.take} OFFSET {w.skip}"

end Window

structure PageMeta where
  page : Nat
  limit : Nat
  total : Nat
  totalPages : Nat
  hasNext : Bool
  hasPrevious : Bool
  deriving DecidableEq, Repr

def pagesFor (limit total : Nat) : Nat := if limit = 0 then 0 else (total + limit - 1) / limit

def PageMeta.of (page limit total : Nat) : PageMeta :=
  let pages := pagesFor limit total
  ⟨page, limit, total, pages, page < pages, 1 < page⟩

structure Page (α : Type) where
  data : List α
  about : PageMeta
  deriving Repr

def Page.map {α β : Type} (f : α → β) (p : Page α) : Page β := ⟨p.data.map f, p.about⟩

end Listing
