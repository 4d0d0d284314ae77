import PublicAssembly.Image.Load
import PublicAssembly.Proofs.Image.Cells

/-!
# Images that differ in flag words

Two images may differ in their flag words alone: in the columns of the tables where the flags of
types, fields and methods stand. The members of such images are the same, and so are the nesting of
their types and all names, as nothing of this is said by a flag word.

## Main definitions

* `Image.flagColumns`: the columns that hold flag words;
* `Image.Alike`: two images that differ in flag words.

## Main statements

* `Alike.membership_eq`, `Alike.enclosing_eq`: the same rows are members of the same types, and the
  same types are nested in one another.
-/

namespace PublicAssembly.Image

open Metadata (Table)
open Reading

/-- The columns that hold the flag words of types, fields and methods. -/
def flagColumns : List (Table × Nat) :=
  [(Table.typeDef, 0), (Table.field, 0), (Table.methodDef, 2)]

/-- The names of members stand in no flag column. -/
theorem one_not_flag (table : Table) : (table, 1) ∉ flagColumns := by
  simp [flagColumns]

/-- The images have the same headers, the same layout and the same heaps, and their tables differ
in flag columns alone. -/
structure Alike (image other : Image) : Prop where
  /-- The PE headers are the same. -/
  headers_eq : other.headers = image.headers
  /-- The tables lie at the same places. -/
  layout_eq : other.metadata.layout = image.metadata.layout
  /-- The string heap is the same. -/
  strings_eq : other.metadata.strings = image.metadata.strings
  /-- The blob heap is the same. -/
  blobs_eq : other.metadata.blobs = image.metadata.blobs
  /-- All cells are the same but for flag words. -/
  cell_eq : ∀ {table column}, (table, column) ∉ flagColumns →
    ∀ row, other.cell table row column = image.cell table row column

namespace Alike

variable {image other : Image} (h : Alike image other)

include h

/-- The tables have the same numbers of rows. -/
theorem rows_eq (table : Table) : other.rows table = image.rows table := by
  rw [rows, rows, Metadata.rows, Metadata.rows, h.layout_eq]

/-- The same index names the same string. -/
theorem string_eq (index : Nat) : other.metadata.string index = image.metadata.string index := by
  rw [Metadata.string, Metadata.string, h.strings_eq]

/-- The same index names the same blob. -/
theorem blob_eq (index : Nat) : other.metadata.blob index = image.metadata.blob index := by
  rw [Metadata.blob, Metadata.blob, h.blobs_eq]

/-- All names are the same. -/
theorem cellString_eq {table : Table} {column : Nat} (hcolumn : (table, column) ∉ flagColumns)
    (row : Nat) : other.cellString table row column = image.cellString table row column := by
  rw [cellString, cellString, h.cell_eq hcolumn]
  simp only [h.string_eq]

/-- The types have the same full names. -/
theorem typeName_eq : other.typeName = image.typeName := by
  funext table row
  rw [typeName, typeName]
  split
  · next htable =>
    have hspace : (table, 2) ∉ flagColumns := by
      rcases htable with rfl | rfl <;> decide
    rw [h.cellString_eq (one_not_flag table), h.cellString_eq hspace]
  · rfl

/-- The module has the same name. -/
theorem moduleName_eq : other.moduleName = image.moduleName := by
  rw [moduleName, moduleName, h.rows_eq, h.cellString_eq (one_not_flag _)]

/-! ### Members and nesting -/

/-- The numbers in a column are the same. -/
theorem columnValues_eq {table : Table} {column : Nat} (hcolumn : (table, column) ∉ flagColumns) :
    other.columnValues table column = image.columnValues table column := by
  rw [columnValues, columnValues, h.rows_eq]
  simp only [h.cell_eq hcolumn]

/-- A list column gives the same runs. -/
theorem listRanges_eq {table : Table} {column : Nat} (hcolumn : (table, column) ∉ flagColumns)
    (target : Table) :
    other.listRanges table column target = image.listRanges table column target := by
  rw [listRanges, listRanges, h.columnValues_eq hcolumn, h.rows_eq]

/-- The members in some rows have the same names. -/
theorem ownedRows_eq (owner : Nat) (table : Table) (rows : List Nat) :
    other.ownedRows owner table rows = image.ownedRows owner table rows := by
  rw [ownedRows, ownedRows]
  simp only [h.cellString_eq (one_not_flag table)]

/-- Rows with owners are assigned alike. -/
theorem assignRows_eq (mapTable table : Table) (owners : List Nat) (ranges : List RowRange) :
    other.assignRows mapTable table owners ranges =
      image.assignRows mapTable table owners ranges := by
  induction owners generalizing ranges with
  | nil => simp only [assignRows]
  | cons owner owners ih =>
    cases ranges with
    | nil => simp only [assignRows]
    | cons range ranges => simp only [assignRows, h.rows_eq, h.ownedRows_eq, ih]

/-- A map table assigns the same members. -/
theorem assignedRows_eq {mapTable : Table} (hmap : (mapTable, 0) ∉ flagColumns) (table : Table) :
    other.assignedRows mapTable table = image.assignedRows mapTable table := by
  rw [assignedRows, assignedRows, h.columnValues_eq hmap, h.listRanges_eq (one_not_flag _)]
  simp only [h.assignRows_eq]

/-- The same methods are associated with the same properties. -/
theorem semanticsRows_eq : other.semanticsRows = image.semanticsRows := by
  rw [semanticsRows, semanticsRows, h.rows_eq]
  simp only [h.cell_eq (show (Table.methodSemantics, 0) ∉ flagColumns by decide),
    h.cell_eq (one_not_flag Table.methodSemantics),
    h.cell_eq (show (Table.methodSemantics, 2) ∉ flagColumns by decide)]

/-- The same rows are members of the same types. -/
theorem membership_eq : other.membership = image.membership := by
  simp only [membership, h.rows_eq,
    h.listRanges_eq (show (Table.typeDef, 4) ∉ flagColumns by decide),
    h.listRanges_eq (show (Table.typeDef, 5) ∉ flagColumns by decide),
    h.assignedRows_eq (show (Table.eventMap, 0) ∉ flagColumns by decide),
    h.assignedRows_eq (show (Table.propertyMap, 0) ∉ flagColumns by decide), h.semanticsRows_eq]

/-- Nesting rows are taken in alike. -/
theorem readEnclosing_eq (count row : Nat) (found : Enclosing) :
    other.readEnclosing count row found = image.readEnclosing count row found := by
  induction count generalizing row found with
  | zero => simp only [readEnclosing]
  | succ count ih =>
    simp only [readEnclosing, h.rows_eq, ih,
      h.cell_eq (show (Table.nestedClass, 0) ∉ flagColumns by decide),
      h.cell_eq (one_not_flag Table.nestedClass)]

/-- The same types are nested in one another. -/
theorem enclosing_eq : other.enclosing = image.enclosing := by
  rw [enclosing, enclosing, h.readEnclosing_eq, h.rows_eq, h.rows_eq]

end Alike

end PublicAssembly.Image
