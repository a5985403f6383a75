import Listing.Proofs.Drafts

namespace Listing

/-- A query within a statement: what stands before the tables, between them and the predicates, and
behind these. -/
structure Scope where
  before : Draft
  opening : Draft
  closing : Draft

namespace Draft

variable {d : Dialect}

theorem textFrom_append (a b : Draft) (bound : Nat) :
    textFrom d bound (a ++ b) = textFrom d bound a ++ textFrom d (bound + (values a).length) b := by
  induction a generalizing bound with
  | nil => rfl
  | cons piece a ih =>
    cases piece with
    | value v =>
      have hlength : (values (.value v :: a)).length = 1 + (values a).length := Nat.add_comm _ 1
      rw [List.cons_append, textFrom, textFrom, ih, hlength, List.append_assoc, Nat.add_assoc]
    | word | name =>
      rw [List.cons_append, textFrom, textFrom, ih, List.append_assoc]
      rfl
    | unbound n => exact ih bound

def scope (p : Plan) (s : Scope) : Draft :=
  s.before ++ tables p ++ s.opening ++ conjunction p ++ s.closing

def whereWord (p : Plan) : Draft := if p.predicates.isEmpty then [] else [.word " WHERE "]

theorem body_eq (p : Plan) : body p = tables p ++ whereWord p ++ conjunction p := by
  rw [body, restriction, whereWord]
  by_cases hnone : p.predicates = []
  · simp [conjunction, hnone]
  · simp [hnone]

/-- The keys that are compared with those of the page, up to the tables of the query for these. -/
def pageKeysOpening (p : Plan) : Draft :=
  (if 1 < p.primaryKey.length then .word "(" :: (columns p.rootKeys ++ [.word ")"])
    else columns p.rootKeys) ++
  .word " IN (SELECT " :: (columns (p.primaryKey.map fun c ↦ ⟨pageKeysName, c⟩) ++
    .word " FROM (SELECT " :: columns p.rootKeys)

def pageKeysClosing (p : Plan) : Draft :=
  .word " GROUP BY " :: (columns p.rootKeys ++ ordering p true ++ window p ++
    [.word ") AS ", .name pageKeysName, .word ")"])

theorem pageKeys_eq (p : Plan) :
    pageKeys p = pageKeysOpening p ++ body p ++ pageKeysClosing p := by
  simp [pageKeys, pageKeysOpening, pageKeysClosing]

/-- The rows of a page, of all records or under a join to many of those on the page. -/
def rowScope (p : Plan) : Scope :=
  { before := .word "SELECT " :: selection p
    opening := if p.hasToMany then
        if p.predicates.isEmpty then [.word " WHERE "] else [.word " WHERE ("]
      else whereWord p
    closing := if p.hasToMany && !p.predicates.isEmpty then [.word ") AND "] else [] }

def keyScope (p : Plan) : Scope := ⟨pageKeysOpening p, whereWord p, []⟩

def countScope (d : Dialect) (p : Plan) : Scope :=
  ⟨.word "SELECT COUNT(DISTINCT " :: (countedKeys d p.rootKeys ++ [.word ") AS ", .name "total"]),
    whereWord p, []⟩

def pageScopes (p : Plan) : List Scope :=
  if p.hasToMany then [rowScope p, keyScope p] else [rowScope p]

def pageTail (p : Plan) : Draft :=
  if p.hasToMany then pageKeysClosing p ++ ordering p false else ordering p false ++ window p

theorem scope_where (p : Plan) (before : Draft) :
    scope p ⟨before, whereWord p, []⟩ = before ++ body p := by
  simp [scope, body_eq]

theorem select_eq (p : Plan) : select p = (pageScopes p).flatMap (scope p) ++ pageTail p := by
  rw [select, pageScopes, pageTail]
  cases hmany : p.hasToMany with
  | true =>
    have hrows : scope p (rowScope p) = .word "SELECT " :: (selection p ++ (tables p ++
        (if p.predicates.isEmpty then [.word " WHERE "]
          else .word " WHERE (" :: (conjunction p ++ [.word ") AND "])))) := by
      cases hnone : p.predicates.isEmpty with
      | true => simp [scope, rowScope, hmany, conjunction, List.isEmpty_iff.1 hnone]
      | false => simp [scope, rowScope, hmany, hnone]
    simp [hrows, keyScope, scope_where, pageKeys_eq]
  | false => simp [rowScope, hmany, scope_where]

theorem count_eq (d : Dialect) (p : Plan) : count d p = scope p (countScope d p) := by
  simp [count, countScope, scope_where]

/-- What stands before the tables that are counted, in the statement of a page. -/
def pageHead (p : Plan) : Draft :=
  if p.hasToMany then scope p (rowScope p) ++ pageKeysOpening p else .word "SELECT " :: selection p

theorem select_eq_body (p : Plan) : select p = pageHead p ++ body p ++ pageTail p := by
  rw [select_eq, pageScopes, pageHead, pageTail]
  cases hmany : p.hasToMany with
  | true => simp [keyScope, scope_where]
  | false => simp [rowScope, hmany, scope_where]

theorem count_eq_body (d : Dialect) (p : Plan) : count d p = (countScope d p).before ++ body p := by
  rw [count_eq, countScope, scope_where]

end Draft

end Listing
