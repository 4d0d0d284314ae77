import PublicAssembly.Bytes.Basic
import PublicAssembly.Metadata.Column

/-!
# Layout of the metadata tables

The table stream begins with a header that says how wide heap indexes are, which tables are
present and how many rows each has; the rows follow, table after table. From the header alone the
place of every cell is known (`Layout.cell`). Rows are counted from 1, as in tokens.
-/

namespace PublicAssembly.Metadata

open Image (Fault)

/-- Where the rows of one table lie. -/
structure TableLayout where
  /-- The number of rows. -/
  rows : Nat
  /-- The offset of the first row in the file. -/
  offset : Nat
  /-- The offset in a row and the width of each cell. -/
  cells : List (Nat × Nat)
  /-- The number of bytes of a row. -/
  rowSize : Nat
  deriving DecidableEq, Repr

/-- Where the rows of every table lie, in the order of the tables. -/
abbrev Layout := List TableLayout

/-- Cells of the given widths side by side, the first at `offset`. -/
def cellsFrom (offset : Nat) : List Nat → List (Nat × Nat)
  | [] => []
  | width :: rest => (offset, width) :: cellsFrom (offset + width) rest

/-- The number of bytes of a row whose cells have the given widths. -/
def rowWidth (widths : List Nat) : Nat :=
  widths.foldr (· + ·) 0

/-- Tables of the given row counts and cell widths one after another, the first at `offset`. -/
def tablesFrom (offset : Nat) : List (Nat × List Nat) → Layout
  | [] => []
  | (rows, widths) :: rest =>
    ⟨rows, offset, cellsFrom 0 widths, rowWidth widths⟩ ::
      tablesFrom (offset + rowWidth widths * rows) rest

/-- The number of bytes that tables of the given row counts and cell widths take. -/
def totalSize : List (Nat × List Nat) → Nat
  | [] => 0
  | (rows, widths) :: rest => rowWidth widths * rows + totalSize rest

/-- What the header of a table stream says. -/
structure TableHeader where
  /-- Which heaps are wide. -/
  heaps : HeapWidths
  /-- The number of rows of every table. -/
  counts : RowCounts
  /-- The offset in the file where the rows begin. -/
  rowsOffset : Nat
  deriving DecidableEq, Repr

/-- Read one row count for each listed table that the mask names, from `offset` on. Tables that
it does not name have no rows. -/
def readCounts (data : Bytes) (mask : Nat) : List Table → Nat → Except Fault (RowCounts × Nat)
  | [], offset => .ok ([], offset)
  | table :: rest, offset => do
    if mask.testBit table then
      let rows ← data.number offset 4
      let (counts, stop) ← readCounts data mask rest (offset + 4)
      return (rows :: counts, stop)
    else
      let (counts, stop) ← readCounts data mask rest offset
      return (0 :: counts, stop)

/-- Read the header of the table stream at `start`. -/
def TableHeader.read (data : Bytes) (start : Nat) : Except Fault TableHeader := do
  let heapSizes ← data.byte (start + 6)
  let mask ← data.number (start + 8) 8
  if mask >>> Table.count ≠ 0 then
    throw (.unsupported (.tableMask mask))
  let (counts, stop) ← readCounts data mask (List.range Table.count) (start + 24)
  let flags := heapSizes.toNat
  match Table.indirections.find? (fun table => 0 < counts.rows table) with
  | some table => throw (.unsupported (.indirectionTable table))
  | none =>
    return {
      heaps := ⟨flags.testBit 0, flags.testBit 1, flags.testBit 2⟩
      counts := counts
      -- a flag announces four bytes of extra data between the row counts and the rows
      rowsOffset := if flags.testBit 6 then stop + 4 else stop }

/-- The row count and the cell widths of every table. -/
def TableHeader.shapes (header : TableHeader) : List (Nat × List Nat) :=
  (List.range Table.count).map fun table =>
    (header.counts.rows table, (columns table).map (Column.width header.heaps header.counts))

/-- Where the rows lie that the header announces. -/
def TableHeader.layout (header : TableHeader) : Layout :=
  tablesFrom header.rowsOffset header.shapes

namespace Layout

/-- Read the layout of the table stream at `start`; all rows must lie in the data. -/
def read (data : Bytes) (start : Nat) : Except Fault Layout := do
  let header ← TableHeader.read data start
  let stop := header.rowsOffset + totalSize header.shapes
  if data.size < stop then
    throw (.truncated start (stop - start))
  return header.layout

/-- The number of rows of a table. -/
def rows (layout : Layout) (table : Table) : Nat :=
  match layout[table]? with
  | some t => t.rows
  | none => 0

/-- The offset in the file and the width of a cell. -/
def cell (layout : Layout) (table : Table) (row column : Nat) : Except Fault (Nat × Nat) :=
  match layout[table]? with
  | none => .error (.malformed (.unknownTable table))
  | some t =>
    if row = 0 ∨ t.rows < row then .error (.malformed (.rowOutOfRange row table t.rows))
    else
      match t.cells[column]? with
      | none => .error (.malformed (.noColumn table column))
      | some (offset, width) => .ok (t.offset + (row - 1) * t.rowSize + offset, width)

end Layout

end PublicAssembly.Metadata
