import Mathlib.Algebra.GroupWithZero.Nat
import PublicAssembly.Metadata.Layout
import PublicAssembly.Proofs.Reading

/-!
# Where the cells lie

Tables follow each other, rows follow each other in a table, and cells in a row. So the place of a
cell is a sum of sizes (`cell_tablesFrom_eq_ok_iff`), cells lie in the order of their tables, rows
and columns, and no two of them share a byte.

## Main statements

* `cell_inside`: a cell lies where the rows lie;
* `cells_apart`: two different cells share no byte;
* `TableHeader.exists_cell`: every row of a known table has a cell in every column.
-/

namespace PublicAssembly.Metadata

open Reading

/-! ### Sums of the first sizes -/

/-- An item fits between the sum of those before it and a greater sum. -/
theorem sum_take_add_le {sizes : List Nat} {i size : Nat} (h : sizes[i]? = some size) {j : Nat}
    (hij : i < j) : (sizes.take i).sum + size ≤ (sizes.take j).sum := by
  induction sizes generalizing i j with
  | nil => simp at h
  | cons first rest ih =>
    obtain ⟨j, rfl⟩ := Nat.exists_eq_succ_of_ne_zero (Nat.ne_zero_of_lt hij)
    cases i with
    | zero =>
      cases h
      simp
    | succ i =>
      have hrest := ih h (Nat.lt_of_succ_lt_succ hij)
      simp only [Nat.succ_eq_add_one, List.take_succ_cons, List.sum_cons]
      omega

/-- An item fits between the sum of those before it and the sum of all. -/
theorem sum_take_add_le_sum {sizes : List Nat} {i size : Nat} (h : sizes[i]? = some size) :
    (sizes.take i).sum + size ≤ sizes.sum := by
  obtain ⟨hi, -⟩ := List.getElem?_eq_some_iff.1 h
  have hle := sum_take_add_le h hi
  rwa [List.take_length] at hle

/-- The number of bytes of a row is the sum of the widths of its cells. -/
@[simp]
theorem rowWidth_eq_sum (widths : List Nat) : rowWidth widths = widths.sum := rfl

/-- The sizes of tables of the given row counts and cell widths. -/
def tableSizes (shapes : List (Nat × List Nat)) : List Nat :=
  shapes.map fun shape => shape.2.sum * shape.1

theorem totalSize_eq (shapes : List (Nat × List Nat)) :
    totalSize shapes = (tableSizes shapes).sum := by
  induction shapes with
  | nil => rfl
  | cons shape rest ih =>
    rw [totalSize, ih]
    simp [tableSizes]

/-! ### The place of a cell -/

theorem getElem?_cellsFrom (offset : Nat) (widths : List Nat) (column : Nat) :
    (cellsFrom offset widths)[column]? =
      widths[column]?.map fun width => (offset + (widths.take column).sum, width) := by
  induction widths generalizing offset column with
  | nil => simp [cellsFrom]
  | cons width rest ih =>
    rw [cellsFrom]
    cases column with
    | zero => simp
    | succ column => simp [ih, Nat.add_assoc]

theorem getElem?_tablesFrom (offset : Nat) (shapes : List (Nat × List Nat)) (table : Nat) :
    (tablesFrom offset shapes)[table]? =
      shapes[table]?.map fun shape =>
        ⟨shape.1, offset + ((tableSizes shapes).take table).sum, cellsFrom 0 shape.2,
          shape.2.sum⟩ := by
  induction shapes generalizing offset table with
  | nil => simp [tablesFrom]
  | cons shape rest ih =>
    rw [tablesFrom]
    cases table with
    | zero => simp
    | succ table => simp [ih, tableSizes, Nat.add_assoc]

section Cell

variable {start : Nat} {shapes : List (Nat × List Nat)} {table row column offset width : Nat}

/-- The place of a cell: behind the tables before its own, the rows before its own and the cells
before it. -/
theorem cell_tablesFrom_eq_ok_iff :
    Layout.cell (tablesFrom start shapes) table row column = .ok (offset, width) ↔
      ∃ rows widths, shapes[table]? = some (rows, widths) ∧ row ≠ 0 ∧ row ≤ rows ∧
        widths[column]? = some width ∧
        offset = start + ((tableSizes shapes).take table).sum + (row - 1) * widths.sum +
          (widths.take column).sum := by
  rw [Layout.cell, getElem?_tablesFrom]
  cases htable : shapes[table]? with
  | none => simp
  | some shape =>
    obtain ⟨rows, widths⟩ := shape
    -- the tables before it decide where the rows begin, and its own shape the rest
    simp only [Option.map_some, ite_error_eq_ok_iff, not_or, Nat.not_lt, getElem?_cellsFrom,
      Nat.zero_add]
    constructor
    · rintro ⟨⟨hrow, hrows⟩, hcell⟩
      cases hcolumn : widths[column]? with
      | none => simp [hcolumn] at hcell
      | some w =>
        simp only [hcolumn, Option.map_some, Except.ok.injEq, Prod.mk.injEq] at hcell
        exact ⟨rows, widths, rfl, hrow, hrows, by rw [hcolumn, hcell.2], hcell.1.symm⟩
    · rintro ⟨rows', widths', hshape, hrow, hrows, hcolumn, rfl⟩
      cases hshape
      simp [hrow, hrows, hcolumn]

/-- A cell lies in its row, and its row among those of its table. -/
theorem cell_in_row {rows : Nat} {widths : List Nat} (hrow : row ≠ 0) (hrows : row ≤ rows)
    (hcolumn : widths[column]? = some width) :
    (row - 1) * widths.sum + (widths.take column).sum + width ≤ row * widths.sum ∧
      row * widths.sum ≤ widths.sum * rows := by
  have hcell := sum_take_add_le_sum hcolumn
  have hstep : row * widths.sum = (row - 1) * widths.sum + widths.sum := by
    rw [← Nat.succ_mul, Nat.succ_eq_add_one, Nat.sub_add_cancel (Nat.pos_of_ne_zero hrow)]
  refine ⟨by omega, ?_⟩
  rw [Nat.mul_comm widths.sum]
  exact Nat.mul_le_mul_right _ hrows

theorem getElem?_tableSizes {rows : Nat} {widths : List Nat}
    (h : shapes[table]? = some (rows, widths)) :
    (tableSizes shapes)[table]? = some (widths.sum * rows) := by
  simp [tableSizes, h]

/-- A cell lies where the rows lie. -/
theorem cell_inside
    (h : Layout.cell (tablesFrom start shapes) table row column = .ok (offset, width)) :
    start ≤ offset ∧ offset + width ≤ start + totalSize shapes := by
  obtain ⟨rows, widths, hshape, hrow, hrows, hcolumn, rfl⟩ := cell_tablesFrom_eq_ok_iff.1 h
  have hin := cell_in_row hrow hrows hcolumn
  have htable := sum_take_add_le_sum (getElem?_tableSizes hshape)
  rw [totalSize_eq]
  omega

/-- A cell lies among the rows of one of the tables. -/
theorem cell_in_table
    (h : Layout.cell (tablesFrom start shapes) table row column = .ok (offset, width)) :
    ∃ t ∈ tablesFrom start shapes,
      t.offset ≤ offset ∧ offset + width ≤ t.offset + t.rowSize * t.rows := by
  obtain ⟨rows, widths, hshape, hrow, hrows, hcolumn, rfl⟩ := cell_tablesFrom_eq_ok_iff.1 h
  have hin := cell_in_row hrow hrows hcolumn
  have hplace : (tablesFrom start shapes)[table]? = some ⟨rows,
      start + ((tableSizes shapes).take table).sum, cellsFrom 0 widths, widths.sum⟩ := by
    rw [getElem?_tablesFrom, hshape, Option.map_some]
  refine ⟨_, List.mem_of_getElem? hplace, ?_, ?_⟩
  · simp only
    omega
  · simp only
    omega

/-- A cell of an earlier table, of an earlier row of the table, or in an earlier column of the row
ends before another one begins. -/
theorem cell_before {table' row' column' offset' width' : Nat}
    (h : Layout.cell (tablesFrom start shapes) table row column = .ok (offset, width))
    (h' : Layout.cell (tablesFrom start shapes) table' row' column' =
      .ok (offset', width'))
    (hbefore : table < table' ∨ table = table' ∧ (row < row' ∨ row = row' ∧ column < column')) :
    offset + width ≤ offset' := by
  obtain ⟨rows, widths, hshape, hrow, hrows, hcolumn, rfl⟩ := cell_tablesFrom_eq_ok_iff.1 h
  obtain ⟨rows', widths', hshape', hrow', hrows', hcolumn', rfl⟩ := cell_tablesFrom_eq_ok_iff.1 h'
  have hin := cell_in_row hrow hrows hcolumn
  -- in an earlier table the whole table lies between, and otherwise whole rows or cells do
  rcases hbefore with htable | ⟨rfl, hrest⟩
  · have hsum := sum_take_add_le (getElem?_tableSizes hshape) htable
    omega
  · cases hshape.symm.trans hshape'
    rcases hrest with hlt | ⟨rfl, hlt⟩
    · have hle : row * widths.sum ≤ (row' - 1) * widths.sum :=
        Nat.mul_le_mul_right _ (by omega)
      omega
    · have hsum := sum_take_add_le hcolumn hlt
      omega

/-- Two different cells share no byte. -/
theorem cells_apart {table' row' column' offset' width' : Nat}
    (h : Layout.cell (tablesFrom start shapes) table row column = .ok (offset, width))
    (h' : Layout.cell (tablesFrom start shapes) table' row' column' =
      .ok (offset', width'))
    (hne : (table, row, column) ≠ (table', row', column')) :
    offset + width ≤ offset' ∨ offset' + width' ≤ offset := by
  have horder :
      (table < table' ∨ table = table' ∧ (row < row' ∨ row = row' ∧ column < column')) ∨
        (table' < table ∨ table' = table ∧ (row' < row ∨ row' = row ∧ column' < column)) := by
    simp only [ne_eq, Prod.mk.injEq, not_and] at hne
    omega
  rcases horder with hbefore | hbefore
  · exact .inl (cell_before h h' hbefore)
  · exact .inr (cell_before h' h hbefore)

end Cell

/-! ### The cells of the known tables -/

/-- What it takes to read the layout of the tables: its header, and room for all rows. -/
theorem Layout.read_eq_ok_iff {data : Bytes} {start : Nat} {layout : Layout} :
    Layout.read data start = .ok layout ↔
      ∃ header, TableHeader.read data start = .ok header ∧
        header.rowsOffset + totalSize header.shapes ≤ data.size ∧ header.layout = layout := by
  simp only [Layout.read, bind_eq_ok_iff, throw_eq]
  refine exists_congr fun header => and_congr_right fun _ => ?_
  by_cases hroom : data.size < header.rowsOffset + totalSize header.shapes
  · simp [hroom, Nat.not_le.2 hroom]
  · simp [hroom, Nat.not_lt.1 hroom]

/-- A cell is in a row of its table. -/
theorem Layout.row_of_cell {layout : Layout} {table row column offset width : Nat}
    (h : layout.cell table row column = .ok (offset, width)) :
    row ≠ 0 ∧ row ≤ layout.rows table := by
  rw [Layout.cell] at h
  rw [Layout.rows]
  cases htable : layout[table]? with
  | none => simp [htable] at h
  | some t =>
    simp only [htable, ite_error_eq_ok_iff, not_or, Nat.not_lt] at h
    exact h.1

namespace TableHeader

variable {header : TableHeader} {table row column : Nat}

/-- The shape of a known table. -/
theorem getElem?_shapes (htable : table < Table.count) :
    header.shapes[table]? = some (header.counts.rows table,
      (columns table).map (Column.width header.heaps header.counts)) := by
  simp [shapes, htable]

/-- Every row of a known table has a cell in every column, as wide as the column. -/
theorem exists_cell (htable : table < Table.count) (hrow : row ≠ 0)
    (hrows : row ≤ header.layout.rows table) {kind : Column}
    (hcolumn : (columns table)[column]? = some kind) :
    ∃ offset, header.layout.cell table row column =
      .ok (offset, kind.width header.heaps header.counts) := by
  rw [Layout.rows, layout, getElem?_tablesFrom, getElem?_shapes htable] at hrows
  exact ⟨_, cell_tablesFrom_eq_ok_iff.2 ⟨_, _, getElem?_shapes htable, hrow, hrows,
    by simp [hcolumn], rfl⟩⟩

/-- A cell is as wide as its column. -/
theorem width_of_cell (htable : table < Table.count) {offset width : Nat}
    (h : header.layout.cell table row column = .ok (offset, width)) {kind : Column}
    (hcolumn : (columns table)[column]? = some kind) :
    width = kind.width header.heaps header.counts := by
  obtain ⟨rows, widths, hshape, -, -, hwidth, -⟩ := cell_tablesFrom_eq_ok_iff.1 h
  cases (getElem?_shapes htable).symm.trans hshape
  simpa [hcolumn, eq_comm] using hwidth

end TableHeader

end PublicAssembly.Metadata
