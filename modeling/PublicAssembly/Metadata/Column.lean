import PublicAssembly.Metadata.CodedIndex

/-!
# Columns of the metadata tables

What the columns of each table hold. The width of a column follows from the widths of the heap
indexes and from the number of rows of the tables it points into.
-/

namespace PublicAssembly.Metadata

/-- What a column holds. -/
inductive Column where
  /-- A number of two bytes. -/
  | word
  /-- A number of four bytes. -/
  | doubleWord
  /-- An index into the string heap. -/
  | string
  /-- An index into the heap of unique identifiers. -/
  | guid
  /-- An index into the blob heap. -/
  | blob
  /-- A row of one table. -/
  | row (table : Table)
  /-- A row of one of several tables. -/
  | coded (kind : CodedIndex)
  deriving DecidableEq, Repr

/-- Which heaps take indexes of four bytes instead of two. -/
structure HeapWidths where
  /-- The string heap does. -/
  wideStrings : Bool
  /-- The heap of unique identifiers does. -/
  wideGuids : Bool
  /-- The blob heap does. -/
  wideBlobs : Bool
  deriving DecidableEq, Repr

/-- The number of bytes of an index that is wide or not. -/
def indexWidth (wide : Bool) : Nat :=
  if wide then 4 else 2

/-- The number of bytes of a column. -/
def Column.width (heaps : HeapWidths) (counts : RowCounts) : Column → Nat
  | word => 2
  | doubleWord => 4
  | string => indexWidth heaps.wideStrings
  | guid => indexWidth heaps.wideGuids
  | blob => indexWidth heaps.wideBlobs
  | row table => indexWidth (0x10000 ≤ counts.rows table)
  | coded kind => kind.width counts

/-- A heap index takes two bytes or four. -/
theorem indexWidth_eq (wide : Bool) : indexWidth wide = 2 ∨ indexWidth wide = 4 := by
  cases wide <;> simp [indexWidth]

/-- A column takes two bytes or four. -/
theorem Column.width_eq (heaps : HeapWidths) (counts : RowCounts) (column : Column) :
    column.width heaps counts = 2 ∨ column.width heaps counts = 4 := by
  cases column with
  | word => exact .inl rfl
  | doubleWord => exact .inr rfl
  | string => exact indexWidth_eq _
  | guid => exact indexWidth_eq _
  | blob => exact indexWidth_eq _
  | row table => exact indexWidth_eq _
  | coded kind =>
    simp only [width, CodedIndex.width]
    split <;> simp

open Column

/-- The columns of every table, in the order of the tables. -/
def schema : List (List Column) := [
  -- module to param
  [word, string, guid, guid, guid],
  [coded .resolutionScope, string, string],
  [doubleWord, string, string, coded .typeDefOrRef, row Table.field, row Table.methodDef],
  [row Table.field],
  [word, string, blob],
  [row Table.methodDef],
  [doubleWord, word, word, string, blob, row Table.param],
  [row Table.param],
  [word, word, string],
  -- interfaceImpl to fieldLayout; the type of a constant is a byte and a byte of padding
  [row Table.typeDef, coded .typeDefOrRef],
  [coded .memberRefParent, string, blob],
  [word, coded .hasConstant, blob],
  [coded .hasCustomAttribute, coded .customAttributeType, blob],
  [coded .hasFieldMarshal, blob],
  [word, coded .hasDeclSecurity, blob],
  [word, doubleWord, row Table.typeDef],
  [doubleWord, row Table.field],
  -- standAloneSig to methodImpl
  [blob],
  [row Table.typeDef, row Table.event],
  [row Table.event],
  [word, string, coded .typeDefOrRef],
  [row Table.typeDef, row Table.property],
  [row Table.property],
  [word, string, blob],
  [word, row Table.methodDef, coded .hasSemantics],
  [row Table.typeDef, coded .methodDefOrRef, coded .methodDefOrRef],
  -- moduleRef to encMap
  [string],
  [blob],
  [word, coded .memberForwarded, string, row Table.moduleRef],
  [doubleWord, row Table.field],
  [doubleWord, doubleWord],
  [doubleWord],
  -- assembly to assemblyRefOs
  [doubleWord, word, word, word, word, doubleWord, blob, string, string],
  [doubleWord],
  [doubleWord, doubleWord, doubleWord],
  [word, word, word, word, doubleWord, blob, string, string, blob],
  [doubleWord, row Table.assemblyRef],
  [doubleWord, doubleWord, doubleWord, row Table.assemblyRef],
  -- file to genericParamConstraint
  [doubleWord, string, blob],
  [doubleWord, doubleWord, string, string, coded .implementation],
  [doubleWord, doubleWord, string, coded .implementation],
  [row Table.typeDef, row Table.typeDef],
  [word, word, coded .typeOrMethodDef, string],
  [coded .methodDefOrRef, blob],
  [row Table.genericParam, coded .typeDefOrRef]]

/-- The columns of a table; an unknown table has none. -/
def columns (table : Table) : List Column :=
  schema.getD table []

/-- Every known table has columns. -/
theorem columns_ne_nil {table : Table} (h : table < Table.count) : columns table ≠ [] := by
  have all : ∀ t : Fin Table.count, columns t.val ≠ [] := by decide
  exact all ⟨table, h⟩

end PublicAssembly.Metadata
