import PublicAssembly.Proofs.Metadata.Streams

/-!
# The placement of the tables

The header of a table stream ends with the row counts, and behind it the cells fill a part of the
file: table after table in the order of their numbers, row after row, and cell after cell. Each cell
can be read, and a number that is written into one of them disturbs neither the others nor the
header.

## Main definitions

* `tablesBelow`: the number of tables that a mask names before one;
* `Layout.Fills`: the cells of a layout fill some bytes without gaps, in the order of their tables,
  rows and columns.

## Main statements

* `rows_of_readCounts`: where the row counts are stored, and where they end;
* `TableHeader.fills`: the cells that a header announces fill the bytes behind it;
* `Layout.cell_writeNumber`: what a written cell does to the reading of cells;
* `Layout.cells_of_read`: all of this for every layout that can be read.
-/

namespace PublicAssembly.Metadata

open Image (Fault)
open Reading

/-! ### The row counts -/

/-- The number of tables below the given one that a mask names. -/
def tablesBelow (mask table : Nat) : Nat :=
  (List.range table).countP mask.testBit

/-- A table is named or it is not. -/
theorem tablesBelow_succ (mask table : Nat) :
    tablesBelow mask (table + 1) =
      tablesBelow mask table + if mask.testBit table then 1 else 0 := by
  rw [tablesBelow, tablesBelow, List.range_succ, List.countP_append, List.countP_singleton]

/-- The row counts of the tables from `first` on that the mask names are stored one after another,
four bytes each; the other tables have no rows. -/
theorem rows_of_readCounts {data : Bytes} {mask first count stop : Nat} (start : Nat)
    {counts : RowCounts}
    (h : readCounts data mask (List.range' first count) (start + 4 * tablesBelow mask first) =
      .ok (counts, stop)) :
    stop = start + 4 * tablesBelow mask (first + count) ∧
      ∀ table, first ≤ table → table < first + count →
        if mask.testBit table then
          data.number (start + 4 * tablesBelow mask table) 4 = .ok (counts.getD (table - first) 0)
        else counts.getD (table - first) 0 = 0 := by
  induction count generalizing first counts with
  | zero =>
    cases h
    exact ⟨rfl, fun table hle hlt => absurd hlt (Nat.not_lt.2 hle)⟩
  | succ count ih =>
    have hnext : first + (count + 1) = first + 1 + count := by omega
    -- what the rest of the tables say of a table is said of its place one further
    have hplace (table : Nat) (hlt : first < table) : table - first = table - (first + 1) + 1 := by
      omega
    rw [List.range'_succ, readCounts] at h
    have hbelow := tablesBelow_succ mask first
    by_cases hnamed : mask.testBit first = true
    · simp only [hnamed, if_true, bind_eq_ok_iff, pure_eq_ok_iff, Prod.exists, Prod.mk.injEq] at h
      obtain ⟨rows, hrows, others, _, hothers, rfl, rfl⟩ := h
      rw [if_pos hnamed] at hbelow
      rw [Nat.add_assoc, show 4 * tablesBelow mask first + 4 = 4 * tablesBelow mask (first + 1) by
        omega] at hothers
      obtain ⟨hstop, hall⟩ := ih hothers
      refine ⟨by rw [hstop, hnext], fun table hle hlt => ?_⟩
      rcases Nat.eq_or_lt_of_le hle with rfl | hlater
      · rw [if_pos hnamed, Nat.sub_self]
        exact hrows
      · rw [hplace table hlater, List.getD_cons_succ]
        exact hall table hlater (by omega)
    · simp only [hnamed, if_false, bind_eq_ok_iff, pure_eq_ok_iff, Prod.exists, Prod.mk.injEq,
        Bool.false_eq_true] at h
      obtain ⟨others, _, hothers, rfl, rfl⟩ := h
      simp only [hnamed, if_false, Nat.add_zero, Bool.false_eq_true] at hbelow
      rw [← hbelow] at hothers
      obtain ⟨hstop, hall⟩ := ih hothers
      refine ⟨by rw [hstop, hnext], fun table hle hlt => ?_⟩
      rcases Nat.eq_or_lt_of_le hle with rfl | hlater
      · rw [if_neg hnamed, Nat.sub_self, List.getD_cons_zero]
      · rw [hplace table hlater, List.getD_cons_succ]
        exact hall table hlater (by omega)

/-- The header of a table stream says which tables there are and how many rows each has, and its
rows begin behind the row counts. -/
theorem TableHeader.rows_of_read {data : Bytes} {start : Nat} {header : TableHeader}
    (h : TableHeader.read data start = .ok header) :
    ∃ mask, data.number (start + 8) 8 = .ok mask ∧
      start + 24 + 4 * tablesBelow mask Table.count ≤ header.rowsOffset ∧
      ∀ table < Table.count,
        if mask.testBit table then
          data.number (start + 24 + 4 * tablesBelow mask table) 4 = .ok (header.counts.rows table)
        else header.counts.rows table = 0 := by
  simp only [TableHeader.read, bind_eq_ok_iff, throw_eq, error_bind, ite_error_eq_ok_iff,
    Prod.exists] at h
  obtain ⟨heapSizes, -, mask, hmask, -, counts, stop, hcounts, hheader⟩ := h
  rw [List.range_eq_range'] at hcounts
  have hbelow : tablesBelow mask 0 = 0 := rfl
  -- the counts are read from the first table on, before which none is announced
  obtain ⟨rfl, hall⟩ :=
    rows_of_readCounts (start + 24) (by rw [hbelow, Nat.mul_zero]; exact hcounts)
  rw [Nat.zero_add] at hheader hall
  split at hheader
  · cases hheader
  · rw [pure_eq_ok_iff] at hheader
    subst hheader
    refine ⟨mask, hmask, ?_, fun table htable => hall table (Nat.zero_le _) htable⟩
    dsimp only
    -- there may be additional data of the header between the counts and the rows
    split
    · exact Nat.le_add_right _ _
    · exact Nat.le_refl _

/-! ### Cells without gaps -/

namespace TableLayout

/-- The bytes of the rows of a table. -/
def span (t : TableLayout) : Span :=
  ⟨t.offset, t.rowSize * t.rows⟩

/-- The bytes of a row. -/
def rowSpan (t : TableLayout) (row : Nat) : Span :=
  ⟨t.offset + (row - 1) * t.rowSize, t.rowSize⟩

end TableLayout

/-- The cells of a layout fill the bytes from `first` to `last`. -/
structure Layout.Fills (layout : Layout) (first last : Nat) : Prop where
  /-- The tables follow one another in the order of their numbers. -/
  tables : Span.Consecutive first (layout.map TableLayout.span) last
  /-- The rows of a table follow one another. -/
  rows : ∀ t ∈ layout, Span.Consecutive t.offset ((List.range' 1 t.rows).map t.rowSpan)
    (t.offset + t.rowSize * t.rows)
  /-- The cells of a row follow one another. -/
  cells : ∀ table t, layout[table]? = some t → ∀ row, row ≠ 0 → row ≤ t.rows →
    ∃ cells, Span.Consecutive (t.rowSpan row).offset cells ((t.rowSpan row).offset + t.rowSize) ∧
      ∀ column offset width,
        layout.cell table row column = .ok (offset, width) ↔ cells[column]? = some ⟨offset, width⟩

section Consecutive

/-- Tables that are laid out one after another follow one another. -/
theorem consecutive_tablesFrom (offset : Nat) (shapes : List (Nat × List Nat)) :
    Span.Consecutive offset ((tablesFrom offset shapes).map TableLayout.span)
      (offset + totalSize shapes) := by
  induction shapes generalizing offset with
  | nil => exact rfl
  | cons shape rest ih =>
    rw [tablesFrom, List.map_cons, totalSize, ← Nat.add_assoc]
    exact ⟨rfl, ih _⟩

/-- Rows of one size follow one another. -/
theorem consecutive_rowSpan (t : TableLayout) (before count : Nat) :
    Span.Consecutive (t.offset + before * t.rowSize)
      ((List.range' (before + 1) count).map t.rowSpan)
      (t.offset + before * t.rowSize + t.rowSize * count) := by
  induction count generalizing before with
  | zero => exact rfl
  | succ count ih =>
    -- the rows behind the first one begin one row further
    have hstop : t.offset + before * t.rowSize + t.rowSize * (count + 1) =
        t.offset + (before + 1) * t.rowSize + t.rowSize * count := by
      rw [Nat.mul_succ, Nat.succ_mul]
      omega
    rw [List.range'_succ, List.map_cons, hstop]
    refine ⟨rfl, ?_⟩
    have hrest := ih (before + 1)
    rwa [Nat.succ_mul, ← Nat.add_assoc] at hrest ⊢

/-- Cells that are laid out side by side follow one another. -/
theorem consecutive_cellsFrom (place offset : Nat) (widths : List Nat) :
    Span.Consecutive (place + offset)
      ((cellsFrom offset widths).map fun cell => ⟨place + cell.1, cell.2⟩)
      (place + offset + widths.sum) := by
  induction widths generalizing offset with
  | nil => exact rfl
  | cons width rest ih =>
    rw [cellsFrom, List.map_cons, List.sum_cons, ← Nat.add_assoc]
    refine ⟨rfl, ?_⟩
    have hrest := ih (offset + width)
    rwa [← Nat.add_assoc] at hrest

end Consecutive

namespace TableHeader

variable {header : TableHeader}

/-- The number of rows of a table is the one that the header says. -/
theorem rows_layout {table : Table} (htable : table < Table.count) :
    header.layout.rows table = header.counts.rows table := by
  rw [Layout.rows, layout, getElem?_tablesFrom, getElem?_shapes htable]
  rfl

/-- There is a layout for every known table. -/
theorem length_layout : header.layout.length = Table.count := by
  have hlength : header.shapes.length = Table.count := by
    rw [shapes, List.length_map, List.length_range]
  rw [← hlength, layout]
  generalize header.rowsOffset = offset
  generalize header.shapes = shapes
  induction shapes generalizing offset with
  | nil => rfl
  | cons shape rest ih => rw [tablesFrom, List.length_cons, List.length_cons, ih]

/-- There are no rows of an unknown table. -/
theorem rows_layout_of_le {table : Table} (htable : Table.count ≤ table) :
    header.layout.rows table = 0 := by
  have hnone : header.shapes[table]? = none := by
    simp [shapes, htable]
  rw [Layout.rows, layout, getElem?_tablesFrom, hnone]
  rfl

/-- A table whose rows are counted is a known one. -/
theorem lt_count_of_row {table row : Nat} (hrow : row ≠ 0)
    (hrows : row ≤ header.layout.rows table) :
    table < Table.count := by
  by_contra hunknown
  rw [rows_layout_of_le (Nat.not_lt.1 hunknown)] at hrows
  exact hrow (Nat.le_zero.1 hrows)

/-- The cells that a header announces fill the bytes from its end on. -/
theorem fills (header : TableHeader) :
    header.layout.Fills header.rowsOffset (header.rowsOffset + totalSize header.shapes) where
  tables := consecutive_tablesFrom header.rowsOffset header.shapes
  rows t _ := by
    have hrows := consecutive_rowSpan t 0 t.rows
    rwa [Nat.zero_mul, Nat.add_zero] at hrows
  cells table t ht row hrow hrows := by
    rw [layout, getElem?_tablesFrom] at ht
    obtain ⟨⟨count, widths⟩, -, rfl⟩ := Option.map_eq_some_iff.1 ht
    refine ⟨_, consecutive_cellsFrom _ 0 widths, fun column offset width => ?_⟩
    -- the spans of a row are those that the layout finds by its columns
    rw [layout, Layout.cell, getElem?_tablesFrom, ht]
    dsimp only at hrows ⊢
    rw [if_neg (by omega), List.getElem?_map]
    rcases (cellsFrom 0 widths)[column]? with _ | ⟨between, size⟩
    · simp
    · simp

end TableHeader

/-! ### Writing a cell -/

section Writing

variable {data : Bytes} {offset width : Nat}

/-- A number can be written where there is room for it. -/
theorem exists_writeNumber (h : offset + width ≤ data.size) (value : Nat) :
    ∃ out, data.writeNumber offset width value = .ok out :=
  ⟨_, if_pos h⟩

variable {out : Bytes} {value : Nat}

/-- A written number is read back, as far as its width allows. -/
theorem number_writeNumber (h : data.writeNumber offset width value = .ok out) :
    out.number offset width = .ok (value % 1 <<< (8 * width)) := by
  obtain ⟨hroom, rfl⟩ := ite_ok_error_eq_ok_iff.1 h
  apply Bytes.number_of_bytes
  · rwa [Bytes.size_overwrite]
  · intro i hle hlt
    rw [Bytes.getElem?_overwrite _ _ _ (by omega), Bytes.length_littleEndianBytes,
      if_pos ⟨hle, hlt⟩]

/-- A written number changes its own bytes alone. -/
theorem agreeOn_writeNumber (h : data.writeNumber offset width value = .ok out) (place size : Nat)
    (hapart : offset + width ≤ place ∨ place + size ≤ offset) :
    data.size = out.size ∧ data.AgreeOn out place size := by
  obtain ⟨-, rfl⟩ := ite_ok_error_eq_ok_iff.1 h
  refine ⟨(Bytes.size_overwrite _ _ _).symm, fun i hle hlt => ?_⟩
  rcases hapart with hbehind | hbefore
  · rw [Bytes.getElem?_overwrite_of_le]
    rw [Bytes.length_littleEndianBytes]
    omega
  · rw [Bytes.getElem?_overwrite_of_lt]
    omega

end Writing

namespace Layout

variable {data : Bytes} {start : Nat} {layout : Layout}

/-- A cell is missing for another reason than that the data end. -/
theorem cell_ne_truncated (layout : Layout) (table row column place wanted : Nat) :
    layout.cell table row column ≠ .error (.truncated place wanted) := by
  rw [Layout.cell]
  intro h
  split at h
  · cases h
  · split at h
    · cases h
    · split at h <;> cases h

/-- A cell holds the number at its place. -/
theorem metadataCell_eq {strings blobs : Bytes} {table row column offset width : Nat}
    (hcell : layout.cell table row column = .ok (offset, width)) :
    Metadata.cell ⟨data, layout, strings, blobs⟩ table row column = data.number offset width := by
  rw [Metadata.cell, hcell, ok_bind]

/-- Where a layout was read, the cells that it places can be read. -/
theorem metadataCell_ne_truncated (hread : Layout.read data start = .ok layout)
    (strings blobs : Bytes) {table row column place wanted : Nat} :
    Metadata.cell ⟨data, layout, strings, blobs⟩ table row column ≠
      .error (.truncated place wanted) := by
  obtain ⟨header, -, hroom, rfl⟩ := Layout.read_eq_ok_iff.1 hread
  intro h
  rcases bind_eq_error_iff.1 h with hplace | ⟨⟨offset, width⟩, hplace, hnumber⟩
  · exact header.layout.cell_ne_truncated table row column place wanted hplace
  · have hinside := cell_inside hplace
    obtain ⟨n, hn⟩ := Bytes.exists_number (Nat.le_trans hinside.2 hroom)
    cases hn.symm.trans hnumber

/-- A number that is written into a cell leaves the layout, is read back, and leaves what is read in
every other cell. -/
theorem cell_writeNumber (hread : Layout.read data start = .ok layout) (strings blobs : Bytes)
    {table row column offset width : Nat}
    (hcell : layout.cell table row column = .ok (offset, width)) {value : Nat} {out : Bytes}
    (hout : data.writeNumber offset width value = .ok out) :
    Layout.read out start = .ok layout ∧
      Metadata.cell ⟨out, layout, strings, blobs⟩ table row column =
        .ok (value % 1 <<< (8 * width)) ∧
      ∀ table' row' column', (table, row, column) ≠ (table', row', column') →
        Metadata.cell ⟨out, layout, strings, blobs⟩ table' row' column' =
          Metadata.cell ⟨data, layout, strings, blobs⟩ table' row' column' := by
  obtain ⟨header, hheader, hroom, rfl⟩ := Layout.read_eq_ok_iff.1 hread
  have hinside := cell_inside hcell
  obtain ⟨mask, -, hfirst, -⟩ := TableHeader.rows_of_read hheader
  have hsize := (agreeOn_writeNumber hout _ 0 (.inl (Nat.le_refl _))).1
  refine ⟨?_, ?_, fun table' row' column' hne => ?_⟩
  · -- the header ends before the first cell
    have hagree := (agreeOn_writeNumber hout start (header.rowsOffset - start)
      (.inr (by omega))).2
    refine Layout.read_eq_ok_iff.2 ⟨header, TableHeader.read_congr hheader hsize hagree, ?_, rfl⟩
    rw [← hsize]
    exact hroom
  · rw [metadataCell_eq hcell]
    exact number_writeNumber hout
  · rcases hcell' : header.layout.cell table' row' column' with fault | ⟨offset', width'⟩
    · rw [Metadata.cell, Metadata.cell, hcell', error_bind, error_bind]
    · have hagree := (agreeOn_writeNumber hout _ _ (cells_apart hcell hcell' hne)).2
      rw [metadataCell_eq hcell', metadataCell_eq hcell', Bytes.number_congr hagree hsize]

/-- The cells of every layout that can be read. Each table has as many rows as the row counts of the
header say. The cells fill the bytes between some place behind the row counts and one in the data,
table after table, row after row and column after column, without gaps. Each row has a cell of two
or four bytes in each column of its table, and different cells share no byte. So no reading of a
cell runs past the end of the data, and a number that is written into a cell is read back, and
changes neither the layout nor what is read in any other cell. -/
theorem cells_of_read (hread : Layout.read data start = .ok layout) :
    ∃ mask first last, data.number (start + 8) 8 = .ok mask ∧
      start + 24 + 4 * tablesBelow mask Table.count ≤ first ∧ last ≤ data.size ∧
      (∀ table < Table.count,
        if mask.testBit table then
          data.number (start + 24 + 4 * tablesBelow mask table) 4 = .ok (layout.rows table)
        else layout.rows table = 0) ∧
      layout.length = Table.count ∧ layout.Fills first last ∧
      (∀ table row column, row ≠ 0 → row ≤ layout.rows table → column < (columns table).length →
        ∃ offset width, layout.cell table row column = .ok (offset, width) ∧
          (width = 2 ∨ width = 4) ∧ first ≤ offset ∧ offset + width ≤ last) ∧
      (∀ table row column offset width table' row' column' offset' width',
        layout.cell table row column = .ok (offset, width) →
        layout.cell table' row' column' = .ok (offset', width') →
        (table, row, column) ≠ (table', row', column') →
        offset + width ≤ offset' ∨ offset' + width' ≤ offset) ∧
      ∀ strings blobs table row column,
        (∀ place wanted, Metadata.cell ⟨data, layout, strings, blobs⟩ table row column ≠
          .error (.truncated place wanted)) ∧
        ∀ offset width value, layout.cell table row column = .ok (offset, width) →
          ∃ out, data.writeNumber offset width value = .ok out ∧
            Layout.read out start = .ok layout ∧
            Metadata.cell ⟨out, layout, strings, blobs⟩ table row column =
              .ok (value % 1 <<< (8 * width)) ∧
            ∀ table' row' column', (table, row, column) ≠ (table', row', column') →
              Metadata.cell ⟨out, layout, strings, blobs⟩ table' row' column' =
                Metadata.cell ⟨data, layout, strings, blobs⟩ table' row' column' := by
  obtain ⟨header, hheader, hroom, rfl⟩ := Layout.read_eq_ok_iff.1 hread
  obtain ⟨mask, hmask, hfirst, hrows⟩ := TableHeader.rows_of_read hheader
  refine ⟨mask, header.rowsOffset, header.rowsOffset + totalSize header.shapes, hmask, hfirst,
    hroom, ?counts, ?length, header.fills, ?cells, ?apart, ?reading⟩
  case counts =>
    intro table htable
    rw [TableHeader.rows_layout htable]
    exact hrows table htable
  case length => exact TableHeader.length_layout
  case cells =>
    intro table row column hrow hle hcolumn
    have htable := TableHeader.lt_count_of_row hrow hle
    obtain ⟨offset, hcell⟩ := TableHeader.exists_cell htable hrow hle
      (List.getElem?_eq_getElem hcolumn)
    exact ⟨offset, _, hcell, Column.width_eq _ _ _, cell_inside hcell⟩
  case apart =>
    intro table row column offset width table' row' column' offset' width'
    exact cells_apart
  case reading =>
    intro strings blobs table row column
    refine ⟨fun place wanted => ?_, fun offset width value hcell => ?_⟩
    · exact metadataCell_ne_truncated hread strings blobs
    · have hinside := cell_inside hcell
      obtain ⟨out, hout⟩ := exists_writeNumber (Nat.le_trans hinside.2 hroom) value
      exact ⟨out, hout, cell_writeNumber hread strings blobs hcell hout⟩

/-- A table stream with one row of the module table and two method rows, and nothing behind it. -/
def sampleTables : Bytes :=
  Array.replicate 8 0 ++ #[0x41] ++ Array.replicate 15 0 ++ #[1, 0, 0, 0, 2, 0, 0, 0] ++
    Array.replicate 38 0

/-- The access bits of the last method can be written, and the cell is where the rows are. -/
theorem cells_of_read_sampleTables :
    ∃ layout offset width out, Layout.read sampleTables 0 = .ok layout ∧
      layout.rows Table.methodDef = 2 ∧
      layout.cell Table.methodDef 2 2 = .ok (offset, width) ∧ 32 ≤ offset ∧ offset + width ≤ 70 ∧
      sampleTables.writeNumber offset width 6 = .ok out ∧ Layout.read out 0 = .ok layout ∧
      Metadata.cell ⟨out, layout, #[], #[]⟩ Table.methodDef 2 2 = .ok 6 := by
  have htry : okAnd (fun layout => decide (layout.rows Table.methodDef = 2))
      (Layout.read sampleTables 0) = true := by
    decide +kernel
  obtain ⟨layout, hread, hrows⟩ := okAnd_eq_true_iff.1 htry
  have hrows : layout.rows Table.methodDef = 2 := of_decide_eq_true hrows
  obtain ⟨mask, first, last, hmask, hfirst, hlast, -, -, -, hcells, -, hreading⟩ :=
    cells_of_read hread
  have hnamed : tablesBelow mask Table.count = 2 := by
    have hstored : sampleTables.number (0 + 8) 8 = .ok 0x41 := by decide +kernel
    cases hmask.symm.trans hstored
    decide
  have hsize : sampleTables.size = 70 := by decide +kernel
  obtain ⟨offset, width, hcell, hwidth, hbehind, hinside⟩ :=
    hcells Table.methodDef 2 2 (by decide) (Nat.le_of_eq hrows.symm) (by decide)
  obtain ⟨out, hout, hagain, hback, -⟩ :=
    (hreading #[] #[] Table.methodDef 2 2).2 offset width 6 hcell
  refine ⟨layout, offset, width, out, hread, hrows, hcell, by omega, by omega, hout, hagain, ?_⟩
  rw [hback]
  rcases hwidth with rfl | rfl <;> rfl

end Layout

end PublicAssembly.Metadata
