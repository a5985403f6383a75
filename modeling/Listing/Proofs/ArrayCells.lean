import Listing.Connection.Exchange
import Listing.Proofs.Bytes
import Listing.Proofs.Outcome
import Listing.Proofs.Text
import Mathlib.Data.List.Forall2

namespace Listing

namespace Wire

/-- An element behind its length. A null has a negative length and no bytes. -/
def elementBytes : Option Bytes → Bytes
  | none => ofInt 4 (-1)
  | some bytes => ofInt 4 bytes.length ++ bytes

/-- The number of dimensions, whether there are nulls, and the type of the elements; the length and
the lower bound of the dimension, unless there are no elements; and the elements. -/
def arrayBytes (elementType : Nat) (bound : Int) (elements : List (Option Bytes)) : Bytes :=
  ofInt 4 (if elements = [] then 0 else 1) ++ (ofInt 4 (if elements.all (·.isSome) then 0 else 1) ++
    (ofNat 4 elementType ++
      ((if elements = [] then [] else ofInt 4 elements.length ++ ofInt 4 bound) ++
        elements.flatMap elementBytes)))

/-- The bytes of a value as an element of an array. -/
inductive IsElement : ColumnKind → Datum → Bytes → Prop
  | text (s : String) : IsElement .textArray (.text s) (Text.utf8 s)
  | int {width : Nat} {i : Int} (hlow : -(256 ^ width) ≤ 2 * i) (hhigh : 2 * i < 256 ^ width) :
      IsElement (.intArray width) (.int i) (ofInt width i)

/-- The bytes of an array of these values, in which nothing is longer than a length can say. -/
inductive IsArray (k : ColumnKind) : List (Option Datum) → Bytes → Prop
  | mk {items : List (Option Datum)} {elements : List (Option Bytes)} (elementType : Nat)
      (bound : Int) (helements : List.Forall₂ (Option.Rel (IsElement k)) items elements)
      (hcount : elements.length < 0x80000000)
      (hsizes : ∀ element ∈ elements, (element.getD []).length < 0x80000000) :
      IsArray k items (arrayBytes elementType bound elements)

def arrayTypes : List ColumnType := [.textArray, .varcharArray, .int4Array, .int8Array]

variable {elements : List (Option Bytes)} {items : List (Option Datum)} {bytes rest : Bytes}

theorem split?_append {width : Nat} (h : bytes.length = width) :
    split? width (bytes ++ rest) = some (bytes, rest) := by
  rw [split?, if_neg (by rw [List.length_append]; omega), List.take_left' h, List.drop_left' h]

theorem takeInt?_append {width : Nat} (h : bytes.length = width) :
    takeInt? width (bytes ++ rest) = some (toInt bytes, rest) := by
  rw [takeInt?, split?_append h]
  rfl

theorem takeNat?_append {width : Nat} (h : bytes.length = width) :
    takeNat? width (bytes ++ rest) = some (toNat bytes, rest) := by
  rw [takeNat?, split?_append h]
  rfl

theorem takeInt?_ofInt {i : Int} (hlow : -(0x80000000) ≤ i) (hhigh : i < 0x80000000) :
    takeInt? 4 (ofInt 4 i ++ rest) = some (i, rest) := by
  rw [takeInt?_append (length_ofInt _ _), toInt_ofInt (by omega) (by omega)]

theorem takeElements_flatMap (h : ∀ element ∈ elements, (element.getD []).length < 0x80000000) :
    takeElements elements.length (elements.flatMap elementBytes) = some elements := by
  induction elements with
  | nil => rfl
  | cons element elements ih =>
    obtain ⟨helement, h⟩ := List.forall_mem_cons.1 h
    have ih := ih h
    rw [List.length_cons, takeElements, List.flatMap_cons]
    -- A null is told by its negative length, so that the length of what is there has to be one.
    cases element with
    | none =>
      rw [elementBytes, takeInt?_ofInt (by decide) (by decide)]
      simp [ih]
    | some bytes =>
      have hbytes : bytes.length < 0x80000000 := helement
      have hnonneg : ¬(bytes.length : Int) < 0 := by omega
      rw [elementBytes, List.append_assoc, takeInt?_ofInt (by omega) (by omega)]
      simp [hnonneg, split?_append, ih]

theorem takeDimensions_one {n : Nat} (bound : Int) (h : n < 0x80000000) :
    takeDimensions 1 (ofInt 4 n ++ ofInt 4 bound ++ rest) = some ([n], rest) := by
  have hnonneg : ¬(n : Int) < 0 := by omega
  rw [takeDimensions, List.append_assoc, takeInt?_ofInt (by omega) (by omega)]
  simp [takeInt?_append, takeDimensions, hnonneg]

theorem elements?_arrayBytes (elementType : Nat) (bound : Int)
    (hcount : elements.length < 0x80000000)
    (hsizes : ∀ element ∈ elements, (element.getD []).length < 0x80000000) :
    elements? (arrayBytes elementType bound elements) = some elements := by
  have helements := takeElements_flatMap hsizes
  have hone : ¬(1 : Int) < 0 := by decide
  rw [elements?, arrayBytes]
  -- Without elements there is no dimension either, and nothing says how many to take.
  by_cases hempty : elements = []
  · subst hempty
    simp only [if_true, takeInt?_append (length_ofInt _ _)]
    rfl
  · rw [if_neg hempty, if_neg hempty, takeInt?_ofInt (by decide) (by decide)]
    simp only [Option.bind_eq_bind, Option.bind_some, takeInt?_append (length_ofInt _ _),
      takeNat?_append (length_ofNat _ _), if_neg hone, Int.toNat_one,
      takeDimensions_one bound hcount, helements]

variable {read : Bytes → Option Datum} {k : ColumnKind} {t : ColumnType}

theorem mapM_read (h : List.Forall₂ (Option.Rel fun d bytes ↦ read bytes = some d) items elements) :
    elements.mapM (fun element ↦ element.bind read) =
      if items.all (·.isSome) then some (items.map (·.getD .null)) else none := by
  induction h with
  | nil => rfl
  | cons hitem _ ih =>
    rw [List.mapM_cons, ih]
    cases hitem with
    | none => simp
    | some hread =>
      simp only [Option.bind_some, hread, List.all_cons, Option.isSome_some, Bool.true_and]
      split <;> simp

theorem readArray?_arrayBytes (elementType : Nat) (bound : Int)
    (h : List.Forall₂ (Option.Rel fun d bytes ↦ read bytes = some d) items elements)
    (hcount : elements.length < 0x80000000)
    (hsizes : ∀ element ∈ elements, (element.getD []).length < 0x80000000) :
    readArray? read (arrayBytes elementType bound elements) =
      if items.all (·.isSome) then some (.list (items.map (·.getD .null))) else none := by
  rw [readArray?, elements?_arrayBytes elementType bound hcount hsizes]
  simp only [Option.bind_eq_bind, Option.bind_some, mapM_read h]
  split <;> rfl

def readElement? : ColumnKind → Bytes → Option Datum
  | .intArray width => readInt? width
  | _ => readText?

theorem readElement?_of_isElement {d : Datum} (h : IsElement k d bytes) :
    readElement? k bytes = some d := by
  cases h with
  | text s =>
    simp only [readElement?, readText?, Text.ofUtf8?_utf8, Option.map_some]
  | int hlow hhigh =>
    simp only [readElement?, readInt?, int?_ofInt hlow hhigh, Option.map_some]

theorem read?_eq_readArray? (ht : t ∈ arrayTypes) (bytes : Bytes) :
    t.read? (some bytes) = readArray? (readElement? t.kind) bytes := by
  simp only [arrayTypes, List.mem_cons, List.not_mem_nil, or_false] at ht
  obtain rfl | rfl | rfl | rfl := ht <;> rfl

theorem read?_of_isArray (ht : t ∈ arrayTypes) (h : IsArray t.kind items bytes) :
    t.read? (some bytes) =
      if items.all (·.isSome) then some (.list (items.map (·.getD .null))) else none := by
  obtain ⟨elementType, bound, helements, hcount, hsizes⟩ := h
  rw [read?_eq_readArray? ht]
  refine readArray?_arrayBytes elementType bound (helements.imp fun item element hitem ↦ ?_)
    hcount hsizes
  cases hitem with
  | none => exact .none
  | some helement => exact .some (readElement?_of_isElement helement)

end Wire

namespace Connection

open Wire

theorem readCells_isOk_iff {index : Nat} {row : Row} {columns : List (String × ColumnType)}
    {cells : WireRow} : (∃ r, readCells index row columns cells = .ok r) ↔
      ∀ cell ∈ columns.zip cells, cell.1.2.read? cell.2 ≠ none := by
  induction columns generalizing index row cells with
  | nil => exact iff_of_true ⟨row, rfl⟩ (by simp)
  | cons column columns ih =>
    cases cells with
    | nil => exact iff_of_true ⟨row, rfl⟩ (by simp)
    | cons cell cells =>
      rw [List.zip_cons_cons, List.forall_mem_cons, readCells]
      cases column.2.read? cell with
      | none => simp
      | some d => simp [ih]

/-- A page is read exactly if all of its cells are. -/
theorem readPage_isOk_iff {s : Statement} {d : Description} {rows : List WireRow} :
    (∃ page, readPage s d rows = .ok page) ↔
      ∀ row ∈ rows, ∀ cell ∈ d.columns.zip row, cell.1.2.read? cell.2 ≠ none := by
  simp only [readPage, mapError_eq_ok, readRows, mapM_isOk_iff, readRow, readCells_isOk_iff]

end Connection

namespace Wire

open Connection

variable {items : List (Option Datum)} {bytes : Bytes} {t : ColumnType}

/-- An array is read as the list of its elements exactly if none of them is null; if one of them is,
no page with this array on it can be read. -/
theorem read?_list_iff (ht : t ∈ arrayTypes) (h : IsArray t.kind items bytes) :
    (t.read? (some bytes) = some (.list (items.map (·.getD .null))) ↔ none ∉ items) ∧
      (none ∈ items → t.read? (some bytes) = none ∧
        ∀ (s : Statement) (d : Description) (rows : List WireRow) (row : WireRow) (name : String),
          row ∈ rows → ((name, t), some bytes) ∈ d.columns.zip row →
            ∀ page, readPage s d rows ≠ .ok page) := by
  have hread := read?_of_isArray ht h
  have hall : items.all (·.isSome) = true ↔ none ∉ items := by
    rw [List.all_eq_true]
    constructor
    · intro hsome hnull
      exact absurd (hsome none hnull) (by simp)
    · intro hnull item hitem
      exact Option.isSome_iff_ne_none.2 fun hnone ↦ hnull (hnone ▸ hitem)
  constructor
  · rw [hread, ← hall]
    split <;> simp_all
  · intro hnull
    have hnone : t.read? (some bytes) = none := by rw [hread, if_neg fun hsome ↦ hall.1 hsome hnull]
    refine ⟨hnone, fun s d rows row name hrow hcell page hpage ↦ ?_⟩
    exact readPage_isOk_iff.1 ⟨page, hpage⟩ row hrow _ hcell hnone

theorem isElement_letter : IsElement ColumnType.textArray.kind (.text "a") [0x61] := by
  have hbytes : Text.utf8 "a" = [0x61] := by decide +kernel
  exact hbytes ▸ .text "a"

def letterAndNull : Bytes := arrayBytes 25 1 [some [0x61], none]

theorem isArray_letterAndNull :
    IsArray ColumnType.textArray.kind [some (.text "a"), none] letterAndNull :=
  .mk 25 1 (.cons (.some isElement_letter) (.cons .none .nil)) (by decide) (by decide)

theorem read?_list_iff_letterAndNull :
    ColumnType.textArray.read? (some (arrayBytes 25 1 [some [0x61]])) =
        some (.list [.text "a"]) ∧
      ColumnType.textArray.read? (some letterAndNull) = none ∧
        ∀ page, readPage ⟨"SELECT tags FROM book", []⟩ ⟨[], [("tags", .textArray)]⟩
          [[some letterAndNull]] ≠ .ok page := by
  have hletter : IsArray ColumnType.textArray.kind [some (.text "a")]
      (arrayBytes 25 1 [some [0x61]]) :=
    .mk 25 1 (.cons (.some isElement_letter) .nil) (by decide) (by decide)
  obtain ⟨hnull, hpage⟩ := (read?_list_iff (by decide) isArray_letterAndNull).2 (by simp)
  exact ⟨(read?_list_iff (by decide) hletter).1.2 (by simp), hnull,
    hpage _ _ _ [some letterAndNull] "tags" (by simp) (by simp)⟩

/-- A null instead of a text is read, and a null among texts is not. -/
theorem read?_letterAndNull :
    IsArray ColumnType.textArray.kind [some (.text "a"), none] letterAndNull ∧
      ColumnType.textArray.read? (some letterAndNull) ≠ some (.list [.text "a", .null]) ∧
        ColumnType.text.read? none = some .null := by
  refine ⟨isArray_letterAndNull, ?_, rfl⟩
  rw [read?_of_isArray (by decide) isArray_letterAndNull]
  simp

end Wire

end Listing
