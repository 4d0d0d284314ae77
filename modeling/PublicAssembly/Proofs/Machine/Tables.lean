import Mathlib.Data.Nat.Bitwise
import PublicAssembly.Proofs.Machine.Headers

/-!
# Metadata tables on a machine

Row counts have four bytes, and a row has not many columns of four bytes at most. So the offset
behind the last table fits into a word by far, though nothing has been said yet of whether the rows
lie in the data. Once that is known, every cell lies in the data as well (`LayoutFits`).
-/

namespace PublicAssembly.Machine

open Image (Fault)
open Metadata (Table RowCounts HeapWidths Column CodedIndex TableLayout Layout TableHeader columns
  indexWidth)

/-! ### The header of the table stream -/

/-- The byte at a distance from `offset`. -/
def byteAt (data : Bytes) (offset distance : Nat) : Checked UInt8 := do
  let place ← add 64 offset distance
  byte data place

/-- Read one row count for each listed table that the mask names, from `cursor` on, and say where
they end. -/
def readCounts (data : Bytes) (mask : Nat) : List Table → Nat → Checked (RowCounts × Nat)
  | [], cursor => .ok ([], cursor)
  | table :: rest, cursor => do
    let bit ← shiftLeft 64 1 table
    if mask &&& bit ≠ 0 then
      let rows ← number data cursor 4
      let next ← add 64 cursor 4
      let (counts, stop) ← readCounts data mask rest next
      return (rows :: counts, stop)
    else
      let (counts, stop) ← readCounts data mask rest cursor
      return (0 :: counts, stop)

/-- The first of some tables that has rows. -/
def findPresent (counts : Array Nat) : List Table → Checked (Option Table)
  | [] => .ok none
  | table :: rest => do
    let rows ← index counts table
    if 0 < rows then
      return some table
    else
      findPresent counts rest

/-- The offset of the rows when the row counts end at `stop`. -/
def behindCounts (flags stop : Nat) : Checked Nat :=
  if flags.testBit 6 then add 64 stop 4 else .ok stop

/-- Read the header of the table stream at `start`. -/
def readTableHeader (data : Bytes) (start : Nat) : Checked TableHeader := do
  let heapSizes ← byteAt data start 6
  let mask ← numberAt data start 8 8
  let unknown ← shiftRight 64 mask Table.count
  if unknown ≠ 0 then
    throw (.fault (.unsupported (.tableMask mask)))
  let first ← add 64 start 24
  let (counts, stop) ← readCounts data mask (List.range Table.count) first
  let flags := heapSizes.toNat
  let rowsOffset ← behindCounts flags stop
  match ← findPresent counts.toArray Table.indirections with
  | some table => throw (.fault (.unsupported (.indirectionTable table)))
  | none => return ⟨⟨flags.testBit 0, flags.testBit 1, flags.testBit 2⟩, counts, rowsOffset⟩

section TableHeader

variable {data : Bytes}

theorem byteAt_eq (hdata : data.size < 2 ^ 32) {offset distance : Nat}
    (h : offset + distance < 2 ^ 64) :
    byteAt data offset distance = lift (data.byte (offset + distance)) := by
  rw [byteAt, add_eq h, Reading.ok_bind, byte_eq hdata]

/-- A bit is looked at through a word that has no other one. -/
theorem and_one_shiftLeft_ne_zero_iff (n i : Nat) : n &&& 1 <<< i ≠ 0 ↔ n.testBit i = true := by
  rw [Nat.one_shiftLeft, Nat.and_two_pow]
  cases n.testBit i with
  | false => simp
  | true => simp

theorem readCounts_eq (hdata : data.size < 2 ^ 32) (mask : Nat) {tables : List Table}
    (htables : ∀ table ∈ tables, table < 64) {cursor : Nat}
    (hcursor : cursor + 4 * tables.length < 2 ^ 64) :
    readCounts data mask tables cursor = lift (Metadata.readCounts data mask tables cursor) := by
  induction tables generalizing cursor with
  | nil => rfl
  | cons table rest ih =>
    rw [List.forall_mem_cons] at htables
    rw [List.length_cons] at hcursor
    -- the mask has 64 bits, so that the bit of every table can be looked at
    have hbit : 1 <<< table < 2 ^ 64 := by
      rw [Nat.one_shiftLeft]
      exact Nat.pow_lt_pow_right (by omega) htables.1
    rw [readCounts, Metadata.readCounts, shiftLeft_eq htables.1 hbit, Reading.ok_bind]
    by_cases hset : mask.testBit table = true
    · rw [if_pos ((and_one_shiftLeft_ne_zero_iff _ _).2 hset), if_pos hset, number_eq hdata]
      refine bind_eq_lift rfl fun rows _ => ?_
      rw [add_eq (by omega), Reading.ok_bind, ih htables.2 (by omega)]
      exact bind_eq_lift rfl fun found _ => rfl
    · rw [if_neg (mt (and_one_shiftLeft_ne_zero_iff _ _).1 hset), if_neg hset,
        ih htables.2 (by omega)]
      exact bind_eq_lift rfl fun found _ => rfl

/-- There is a row count for every listed table, each a word of 32 bits, and together they take four
bytes a table at most. -/
theorem counts_of_readCounts {mask : Nat} {tables : List Table} {cursor stop : Nat}
    {counts : RowCounts} (h : Metadata.readCounts data mask tables cursor = .ok (counts, stop)) :
    counts.length = tables.length ∧ (∀ rows ∈ counts, rows < 2 ^ 32) ∧ cursor ≤ stop ∧
      stop ≤ cursor + 4 * tables.length := by
  -- four bytes for a table whose bit is set, and none for the others
  induction tables generalizing cursor counts with
  | nil =>
    cases h
    exact ⟨rfl, nofun, Nat.le_refl _, Nat.le_refl _⟩
  | cons table rest ih =>
    rw [Metadata.readCounts] at h
    split at h
    · simp only [Reading.bind_eq_ok_iff, Prod.exists, Reading.pure_eq_ok_iff, Prod.mk.injEq] at h
      obtain ⟨rows, hrows, others, _, hothers, rfl, rfl⟩ := h
      obtain ⟨hlength, hall, hle, hstop⟩ := ih hothers
      rw [List.length_cons, List.length_cons, List.forall_mem_cons]
      exact ⟨by omega, ⟨number_four_lt hrows, hall⟩, by omega, by omega⟩
    · simp only [Reading.bind_eq_ok_iff, Prod.exists, Reading.pure_eq_ok_iff, Prod.mk.injEq] at h
      obtain ⟨others, _, hothers, rfl, rfl⟩ := h
      obtain ⟨hlength, hall, hle, hstop⟩ := ih hothers
      rw [List.length_cons, List.length_cons, List.forall_mem_cons]
      exact ⟨by omega, ⟨by omega, hall⟩, by omega, by omega⟩

/-- A row count of a table that is listed. -/
theorem index_counts {counts : RowCounts} {table : Table} (h : table < counts.length) :
    index counts.toArray table = .ok (counts.rows table) := by
  apply index_eq
  rw [List.getElem?_toArray, RowCounts.rows, List.getD_eq_getElem?_getD, List.getElem?_eq_getElem h]
  rfl

theorem findPresent_eq {counts : RowCounts} {tables : List Table}
    (htables : ∀ table ∈ tables, table < counts.length) :
    findPresent counts.toArray tables =
      .ok (tables.find? fun table => 0 < counts.rows table) := by
  induction tables with
  | nil => rfl
  | cons table rest ih =>
    rw [List.forall_mem_cons] at htables
    rw [findPresent, index_counts htables.1, Reading.ok_bind]
    by_cases hrows : 0 < counts.rows table
    · rw [if_pos hrows, List.find?_cons_of_pos (by simpa using hrows)]
      rfl
    · rw [if_neg hrows, List.find?_cons_of_neg (by simpa using hrows), ih htables.2]

theorem readTableHeader_eq (hdata : data.size < 2 ^ 32) {start : Nat} (hstart : start < 2 ^ 63) :
    readTableHeader data start = lift (TableHeader.read data start) := by
  rw [readTableHeader, TableHeader.read, byteAt_eq hdata (by omega)]
  refine bind_eq_lift rfl fun heapSizes _ => ?_
  rw [numberAt_eq hdata (by omega)]
  refine bind_eq_lift rfl fun mask _ => ?_
  rw [shiftRight_eq (by decide), Reading.ok_bind]
  refine ite_eq_lift (fun _ => rfl) fun _ => ?_
  rw [add_eq (by omega), Reading.ok_bind, readCounts_eq hdata]
  · refine bind_eq_lift rfl fun found hcounts => ?_
    obtain ⟨hlength, -, -, hstop⟩ := counts_of_readCounts hcounts
    rw [List.length_range, Table.count] at hlength hstop
    obtain ⟨counts, stop⟩ := found
    dsimp only at hlength hstop ⊢
    -- the tables that must not be there are looked up among those that have a count
    have hindirections : ∀ table ∈ Table.indirections, table < counts.length := by
      rw [hlength]
      decide
    have hrows : behindCounts heapSizes.toNat stop =
        .ok (if heapSizes.toNat.testBit 6 then stop + 4 else stop) := by
      rw [behindCounts, add_eq (by omega)]
      split
      · rfl
      · rfl
    rw [hrows, Reading.ok_bind, findPresent_eq hindirections, Reading.ok_bind]
    rcases Table.indirections.find? fun table => 0 < counts.rows table with _ | table
    · rfl
    · rfl
  · intro table htable
    rw [List.mem_range, Table.count] at htable
    exact Nat.lt_trans htable (by decide)
  · rw [List.length_range, Table.count]
    omega

end TableHeader

/-! ### The layout of the rows -/

/-- The greatest number of rows among some tables, when `most` is that of the ones before them. -/
def largestIn (counts : Array Nat) (most : Nat) : List Table → Checked Nat
  | [] => .ok most
  | table :: rest => do
    let rows ← index counts table
    largestIn counts (max most rows) rest

/-- The number of bytes of a column. -/
def columnWidth (heaps : HeapWidths) (counts : Array Nat) : Column → Checked Nat
  | .word => .ok 2
  | .doubleWord => .ok 4
  | .string => .ok (indexWidth heaps.wideStrings)
  | .guid => .ok (indexWidth heaps.wideGuids)
  | .blob => .ok (indexWidth heaps.wideBlobs)
  | .row table => do
    let rows ← index counts table
    return if rows < 0x10000 then 2 else 4
  | .coded kind => do
    -- the tag takes some of the bits of a word, and the rows have the others
    let largest ← largestIn counts 0 (kind.tables.filterMap id)
    let bits ← sub 16 kind.tagBits
    let bound ← shiftLeft 32 1 bits
    return if largest < bound then 2 else 4

/-- The cells of the given columns behind `rowSize` bytes of a row, and the number of bytes of the
whole row. -/
def cellsIn (heaps : HeapWidths) (counts : Array Nat) :
    (rowSize : Nat) → List Column → Checked (List (Nat × Nat) × Nat)
  | rowSize, [] => .ok ([], rowSize)
  | rowSize, column :: rest => do
    let width ← columnWidth heaps counts column
    let next ← add 64 rowSize width
    let (cells, size) ← cellsIn heaps counts next rest
    return ((rowSize, width) :: cells, size)

/-- Where the rows of some tables lie, the first at `cursor`, and where they end. -/
def layoutFrom (heaps : HeapWidths) (counts : Array Nat) :
    (cursor : Nat) → List (Nat × Table) → Checked (Layout × Nat)
  | cursor, [] => .ok ([], cursor)
  | cursor, (rows, table) :: rest => do
    let (cells, rowSize) ← cellsIn heaps counts 0 (columns table)
    let size ← mul 64 rowSize rows
    match sum? 64 cursor size with
    | none => .error (.lapse .tablesOverflow)
    | some next =>
      let (layout, stop) ← layoutFrom heaps counts next rest
      return (⟨rows, cursor, cells, rowSize⟩ :: layout, stop)

/-- Read the layout of the table stream at `start`; all rows must lie in the data. -/
def readLayout (data : Bytes) (start : Nat) : Checked Layout := do
  let header ← readTableHeader data start
  let counts := header.counts
  let (layout, stop) ← layoutFrom header.heaps counts.toArray header.rowsOffset counts.zipIdx
  if data.size < stop then
    let wanted ← sub stop start
    throw (.fault (.truncated start wanted))
  return layout

section Layout

variable {data : Bytes} {heaps : HeapWidths} {counts : RowCounts}

theorem largestIn_eq {tables : List Table} (htables : ∀ table ∈ tables, table < counts.length)
    (most : Nat) :
    largestIn counts.toArray most tables =
      .ok (tables.foldl (fun most table => max most (counts.rows table)) most) := by
  induction tables generalizing most with
  | nil => rfl
  | cons table rest ih =>
    rw [List.forall_mem_cons] at htables
    rw [largestIn, index_counts htables.1, Reading.ok_bind, ih htables.2, List.foldl_cons]

/-- The tables that a column points into. -/
def targets : Column → List Table
  | .row table => [table]
  | .coded kind => kind.tables.filterMap id
  | _ => []

/-- A table has nine columns at most, and they point into known tables. -/
theorem columns_known (table : Table) :
    (columns table).length ≤ 9 ∧
      ∀ column ∈ columns table, ∀ target ∈ targets column, target < Table.count := by
  have hall : ∀ t : Fin Table.count, (columns t.val).length ≤ 9 ∧
      ∀ column ∈ columns t.val, ∀ target ∈ targets column, target < Table.count := by
    decide +kernel
  by_cases h : table < Table.count
  · exact hall ⟨table, h⟩
  · have hnil : columns table = [] := by
      rw [columns, List.getD_eq_getElem?_getD, List.getElem?_eq_none (Nat.le_of_not_lt h)]
      rfl
    rw [hnil]
    exact ⟨Nat.zero_le _, nofun⟩

theorem columnWidth_eq (hcounts : counts.length = Table.count) {column : Column}
    (h : ∀ target ∈ targets column, target < Table.count) :
    columnWidth heaps counts.toArray column = .ok (column.width heaps counts) := by
  rw [← hcounts] at h
  cases column with
  | row table =>
    rw [columnWidth, index_counts (h table (List.mem_singleton_self table)), Column.width,
      indexWidth]
    by_cases hrows : counts.rows table < 0x10000
    · simp [hrows]
    · simp [hrows, Nat.le_of_not_lt hrows]
  | coded kind =>
    -- the bits of the tag are few enough for the bound to be shifted by them
    have hbits : kind.tagBits ≤ 5 := by cases kind <;> decide
    have hbound : 1 <<< (16 - kind.tagBits) < 2 ^ 32 := by
      rw [Nat.one_shiftLeft]
      exact Nat.pow_lt_pow_right (by omega) (by omega)
    rw [targets] at h
    rw [columnWidth, largestIn_eq h, Reading.ok_bind, sub_eq (by omega), Reading.ok_bind,
      shiftLeft_eq (by omega) hbound]
    rfl
  | _ => rfl

theorem cellsIn_eq (hcounts : counts.length = Table.count) {rest : List Column}
    (h : ∀ column ∈ rest, ∀ target ∈ targets column, target < Table.count) {rowSize : Nat}
    (hsize : rowSize + 4 * rest.length < 2 ^ 64) :
    cellsIn heaps counts.toArray rowSize rest =
      .ok (Metadata.cellsFrom rowSize (rest.map (Column.width heaps counts)),
        rowSize + Metadata.rowWidth (rest.map (Column.width heaps counts))) := by
  induction rest generalizing rowSize with
  | nil => rfl
  | cons column rest ih =>
    rw [List.forall_mem_cons] at h
    rw [List.length_cons] at hsize
    have hwidth := Column.width_eq heaps counts column
    rw [cellsIn, columnWidth_eq hcounts h.1, Reading.ok_bind, add_eq (by omega), Reading.ok_bind,
      ih h.2 (by omega), List.map_cons, Metadata.cellsFrom, Metadata.rowWidth_eq_sum,
      Metadata.rowWidth_eq_sum, List.sum_cons, ← Nat.add_assoc]
    rfl

/-- A row has 36 bytes at most. -/
theorem rowWidth_le (table : Table) :
    Metadata.rowWidth ((columns table).map (Column.width heaps counts)) ≤ 36 := by
  have hlength := (columns_known table).1
  -- no table has more than nine columns, and none of them takes more than four bytes
  have hsum : ∀ rest : List Column,
      Metadata.rowWidth (rest.map (Column.width heaps counts)) ≤ 4 * rest.length := by
    intro rest
    induction rest with
    | nil => exact Nat.le_refl _
    | cons column rest ih =>
      have hwidth := Column.width_eq heaps counts column
      rw [Metadata.rowWidth_eq_sum] at ih
      rw [List.map_cons, Metadata.rowWidth_eq_sum, List.sum_cons, List.length_cons]
      omega
  have h := hsum (columns table)
  omega

/-- The row count and the cell widths of a table. -/
def shapeOf (heaps : HeapWidths) (counts : RowCounts) (entry : Nat × Table) : Nat × List Nat :=
  (entry.1, (columns entry.2).map (Column.width heaps counts))

theorem layoutFrom_eq (hcounts : counts.length = Table.count) {entries : List (Nat × Table)}
    (hrows : ∀ entry ∈ entries, entry.1 < 2 ^ 32) {cursor : Nat}
    (hcursor : cursor + 2 ^ 38 * entries.length < 2 ^ 64) :
    layoutFrom heaps counts.toArray cursor entries =
      .ok (Metadata.tablesFrom cursor (entries.map (shapeOf heaps counts)),
        cursor + Metadata.totalSize (entries.map (shapeOf heaps counts))) := by
  induction entries generalizing cursor with
  | nil => rfl
  | cons entry rest ih =>
    obtain ⟨rows, table⟩ := entry
    rw [List.forall_mem_cons] at hrows
    rw [List.length_cons] at hcursor
    obtain ⟨hlength, hknown⟩ := columns_known table
    -- a row has 36 bytes at most, so that no table takes more than the bound leaves for each
    have hsize : Metadata.rowWidth ((columns table).map (Column.width heaps counts)) * rows ≤
        36 * 2 ^ 32 :=
      Nat.mul_le_mul (rowWidth_le table) (Nat.le_of_lt hrows.1)
    rw [layoutFrom, cellsIn_eq hcounts hknown (by omega), Reading.ok_bind]
    dsimp only
    rw [Nat.zero_add, mul_eq (by omega), Reading.ok_bind, sum?_eq (by omega)]
    dsimp only
    rw [ih hrows.2 (by omega), Reading.ok_bind, List.map_cons, shapeOf, Metadata.tablesFrom,
      Metadata.totalSize, ← Nat.add_assoc]
    rfl

/-- The shapes of all tables, table after table. -/
theorem shapes_eq_map_zipIdx {header : TableHeader} (hcounts : header.counts.length = Table.count) :
    header.counts.zipIdx.map (shapeOf header.heaps header.counts) = header.shapes := by
  rw [TableHeader.shapes]
  apply List.ext_getElem
  · simp [hcounts]
  · intro i hi _
    simp only [List.length_map, List.length_zipIdx] at hi
    simp [shapeOf, RowCounts.rows, hi]

/-- There is a row count for every table, each a word of 32 bits, and the rows begin soon behind
the table stream does. -/
theorem counts_of_read {start : Nat} {header : TableHeader}
    (h : TableHeader.read data start = .ok header) :
    header.counts.length = Table.count ∧ (∀ rows ∈ header.counts, rows < 2 ^ 32) ∧
      start ≤ header.rowsOffset ∧ header.rowsOffset ≤ start + 208 := by
  simp only [TableHeader.read, Reading.bind_eq_ok_iff, Reading.throw_eq, Reading.error_bind,
    Reading.ite_error_eq_ok_iff, Prod.exists] at h
  obtain ⟨heapSizes, -, mask, -, -, counts, stop, hcounts, h⟩ := h
  obtain ⟨hlength, hall, hle, hstop⟩ := counts_of_readCounts hcounts
  rw [List.length_range] at hlength hstop
  -- four more bytes may stand behind the counts
  split at h
  · cases h
  · rw [Reading.pure_eq_ok_iff] at h
    subst h
    refine ⟨hlength, hall, ?_⟩
    dsimp only
    rw [Table.count] at hstop
    split
    · omega
    · omega

theorem readLayout_eq (hdata : data.size < 2 ^ 32) {start : Nat} (hstart : start < 2 ^ 62) :
    readLayout data start = lift (Layout.read data start) := by
  rw [readLayout, Layout.read, readTableHeader_eq hdata (by omega)]
  refine bind_eq_lift rfl fun header hheader => ?_
  obtain ⟨hlength, hall, hfirst, hoffset⟩ := counts_of_read hheader
  dsimp only
  rw [layoutFrom_eq hlength, shapes_eq_map_zipIdx hlength, Reading.ok_bind]
  · dsimp only
    rw [sub_eq (by omega)]
    exact ite_eq_lift (fun _ => rfl) fun _ => rfl
  · intro entry hentry
    exact hall _ (List.fst_mem_of_mem_zipIdx hentry)
  · rw [List.length_zipIdx, hlength, Table.count]
    omega

end Layout

/-! ### Cells -/

/-- The offset in the file and the width of a cell. -/
def placeOf (layout : Layout) (table : Table) (row column : Nat) : Checked (Nat × Nat) :=
  match layout[table]? with
  | none => .error (.fault (.malformed (.unknownTable table)))
  | some t =>
    if row = 0 ∨ t.rows < row then .error (.fault (.malformed (.rowOutOfRange row table t.rows)))
    else
      match t.cells[column]? with
      | none => .error (.fault (.malformed (.noColumn table column)))
      | some (offset, width) => do
        let before ← sub row 1
        let distance ← mul 64 before t.rowSize
        let first ← add 64 t.offset distance
        let place ← add 64 first offset
        return (place, width)

/-- Every cell of the layout lies in the data, and no table has more rows than the data has room for
at two bytes a row. -/
structure LayoutFits (data : Bytes) (layout : Layout) : Prop where
  /-- A cell lies in the data. -/
  inside : ∀ {table row column place width : Nat},
    layout.cell table row column = .ok (place, width) → place + width ≤ data.size
  /-- A cell takes two bytes or four. -/
  width : ∀ {table row column place width : Nat},
    layout.cell table row column = .ok (place, width) → width = 2 ∨ width = 4
  /-- A cell of a column of two bytes takes two bytes. -/
  word : ∀ {table row column place width : Nat}, table < Table.count →
    (columns table)[column]? = some .word → layout.cell table row column = .ok (place, width) →
    width = 2
  /-- A cell of a column of four bytes takes four bytes. -/
  doubleWord : ∀ {table row column place width : Nat}, table < Table.count →
    (columns table)[column]? = some .doubleWord →
    layout.cell table row column = .ok (place, width) → width = 4
  /-- The rows of a table lie in the data. -/
  rows : ∀ table, 2 * layout.rows table ≤ data.size

section Cells

variable {data : Bytes} {layout : Layout} {header : TableHeader}

theorem width_of_shapes {table column width rows : Nat} {widths : List Nat}
    (hshape : header.shapes[table]? = some (rows, widths)) (hwidth : widths[column]? = some width) :
    width = 2 ∨ width = 4 := by
  rw [TableHeader.shapes, List.getElem?_map, Option.map_eq_some_iff] at hshape
  obtain ⟨t, -, hshape⟩ := hshape
  cases hshape
  rw [List.getElem?_map, Option.map_eq_some_iff] at hwidth
  obtain ⟨column, -, rfl⟩ := hwidth
  exact Column.width_eq _ _ column

/-- An unknown table has no rows. -/
theorem rows_of_unknown {table : Table} (h : Table.count ≤ table) :
    header.layout.rows table = 0 := by
  have hnone : header.shapes[table]? = none := by
    rw [List.getElem?_eq_none_iff, TableHeader.shapes, List.length_map, List.length_range]
    exact h
  rw [Layout.rows, TableHeader.layout, Metadata.getElem?_tablesFrom, hnone]
  rfl

theorem layoutFits {start : Nat} (h : Layout.read data start = .ok layout) :
    LayoutFits data layout := by
  obtain ⟨header, -, hroom, rfl⟩ := Layout.read_eq_ok_iff.1 h
  refine ⟨fun {table row column place width} hcell => ?inside,
    fun {table row column place width} hcell => ?width,
    fun {table row column place width} htable hword hcell => ?word,
    fun {table row column place width} htable hword hcell => ?doubleWord, fun table => ?rows⟩
  case inside => exact Nat.le_trans (Metadata.cell_inside hcell).2 hroom
  case width =>
    obtain ⟨rows, widths, hshape, -, -, hwidth, -⟩ := Metadata.cell_tablesFrom_eq_ok_iff.1 hcell
    exact width_of_shapes hshape hwidth
  case word => exact TableHeader.width_of_cell htable hcell hword
  case doubleWord => exact TableHeader.width_of_cell htable hcell hword
  case rows =>
    by_cases hrow : header.layout.rows table = 0
    · omega
    have htable : table < Table.count := by
      by_contra hout
      exact hrow (rows_of_unknown (Nat.le_of_not_lt hout))
    obtain ⟨kind, rest, hcolumns⟩ := List.exists_cons_of_ne_nil (Metadata.columns_ne_nil htable)
    have hkind : (columns table)[0]? = some kind := by rw [hcolumns, List.getElem?_cons_zero]
    -- the first cell of the last row lies behind all the rows before it
    obtain ⟨place, hcell⟩ := TableHeader.exists_cell htable hrow (Nat.le_refl _) hkind
    have hinside := (Metadata.cell_inside hcell).2
    obtain ⟨rows, widths, hshape, -, -, hwidth, hplace⟩ :=
      Metadata.cell_tablesFrom_eq_ok_iff.1 hcell
    have hsum := Metadata.sum_take_add_le_sum hwidth
    have hwide := width_of_shapes hshape hwidth
    have hbefore : (header.layout.rows table - 1) * 2 ≤
        (header.layout.rows table - 1) * widths.sum := Nat.mul_le_mul_left _ (by omega)
    omega

theorem placeOf_eq (hdata : data.size < 2 ^ 32) (hfits : LayoutFits data layout)
    (table row column : Nat) :
    placeOf layout table row column = lift (layout.cell table row column) := by
  rw [placeOf, Layout.cell]
  rcases htable : layout[table]? with _ | t
  · rfl
  dsimp only
  refine ite_eq_lift (fun _ => rfl) fun hrow => ?_
  rcases hcolumn : t.cells[column]? with _ | ⟨offset, width⟩
  · rfl
  dsimp only
  have hcell : layout.cell table row column =
      .ok (t.offset + (row - 1) * t.rowSize + offset, width) := by
    rw [Layout.cell, htable]
    dsimp only
    rw [if_neg hrow, hcolumn]
  -- the place of the cell is the greatest of the sums
  have hinside := hfits.inside hcell
  rw [sub_eq (by omega), Reading.ok_bind, mul_eq (by omega), Reading.ok_bind, add_eq (by omega),
    Reading.ok_bind, add_eq (by omega)]
  rfl

end Cells

end PublicAssembly.Machine
