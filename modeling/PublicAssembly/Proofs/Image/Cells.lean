import PublicAssembly.Image.Basic
import PublicAssembly.Proofs.Bytes.Agreement
import PublicAssembly.Proofs.Metadata.Streams

/-!
# The cells of an image

An image that was read lays out its tables by one table header, and all their rows lie in the file.
So every cell of every known table can be read.

## Main statements

* `layout_of_read`: the header behind the layout of an image;
* `exists_cell`: every cell of an image can be read;
* `cell_unique`: no two cells share a byte.
-/

namespace PublicAssembly.Image

open Metadata (Table TableHeader Layout totalSize columns)
open Reading

variable {image : Image} {table row column : Nat}

/-- What it takes to read a cell: a place for it, and a number there. -/
theorem cell_eq_ok_iff {n : Nat} :
    image.cell table row column = .ok n ↔
      ∃ offset width, image.metadata.layout.cell table row column = .ok (offset, width) ∧
        image.metadata.data.number offset width = .ok n := by
  simp only [cell, Metadata.cell, bind_eq_ok_iff, Prod.exists]

/-- A cell is in a row of its table. -/
theorem row_of_cell {n : Nat} (h : image.cell table row column = .ok n) :
    row ≠ 0 ∧ row ≤ image.rows table := by
  obtain ⟨offset, width, hcell, -⟩ := cell_eq_ok_iff.1 h
  exact Layout.row_of_cell hcell

/-- What it takes to read an image. -/
theorem read_eq_ok_iff {data : Bytes} :
    Image.read data = .ok image ↔
      ∃ root metadata, Headers.read data = .ok image.headers ∧
        image.headers.metadataOffset data = .ok root ∧ Metadata.read data root = .ok metadata ∧
        image = ⟨data, image.headers, metadata⟩ := by
  simp only [Image.read, bind_eq_ok_iff, pure_eq_ok_iff]
  constructor
  · rintro ⟨headers, hheaders, root, hroot, metadata, hmetadata, rfl⟩
    exact ⟨root, metadata, hheaders, hroot, hmetadata, rfl⟩
  · rintro ⟨root, metadata, hheaders, hroot, hmetadata, himage⟩
    exact ⟨image.headers, hheaders, root, hroot, metadata, hmetadata, himage.symm⟩

/-- The tables of an image are laid out as a header says, and all their rows lie in the file. -/
theorem layout_of_read {data : Bytes} (h : Image.read data = .ok image) :
    image.data = data ∧ image.metadata.data = data ∧
      ∃ header : TableHeader, image.metadata.layout = header.layout ∧
        header.rowsOffset + totalSize header.shapes ≤ data.size := by
  obtain ⟨root, metadata, -, -, hmetadata, himage⟩ := read_eq_ok_iff.1 h
  obtain ⟨streams, start, layout, -, -, hlayout, rfl⟩ := Metadata.read_eq_ok_iff.1 hmetadata
  obtain ⟨header, -, hroom, rfl⟩ := Layout.read_eq_ok_iff.1 hlayout
  rw [himage]
  exact ⟨rfl, rfl, header, rfl, hroom⟩

/-- Every row of a known table has a number in every column. -/
theorem exists_cell {data : Bytes} (h : Image.read data = .ok image) (htable : table < Table.count)
    (hcolumn : column < (columns table).length) (hrow : row ≠ 0) (hrows : row ≤ image.rows table) :
    ∃ n, image.cell table row column = .ok n := by
  obtain ⟨-, hdata, header, hlayout, hroom⟩ := layout_of_read h
  rw [rows, Metadata.rows, hlayout] at hrows
  obtain ⟨offset, hcell⟩ := TableHeader.exists_cell htable hrow hrows
    (List.getElem?_eq_getElem hcolumn)
  have hinside := Metadata.cell_inside hcell
  obtain ⟨n, hn⟩ := Bytes.exists_number (Nat.le_trans hinside.2 hroom)
  exact ⟨n, cell_eq_ok_iff.2 ⟨offset, _, by rw [hlayout, hcell], by rwa [hdata]⟩⟩

/-- A number in a column is one of the width of the column. -/
theorem cell_lt {data : Bytes} (h : Image.read data = .ok image) (htable : table < Table.count)
    {kind : Metadata.Column} (hcolumn : (columns table)[column]? = some kind) {width : Nat}
    (hkind : ∀ heaps counts, kind.width heaps counts = width) {n : Nat}
    (hcell : image.cell table row column = .ok n) : n < 1 <<< (8 * width) := by
  obtain ⟨-, -, header, hlayout, -⟩ := layout_of_read h
  obtain ⟨offset, place, hplace, hnumber⟩ := cell_eq_ok_iff.1 hcell
  rw [hlayout] at hplace
  have hlt := Bytes.number_lt hnumber
  rwa [TableHeader.width_of_cell htable hplace hcolumn, hkind] at hlt

/-- A number in a column of four bytes is one of four bytes. -/
theorem cell_lt_of_doubleWord {data : Bytes} (h : Image.read data = .ok image)
    (htable : table < Table.count) (hcolumn : (columns table)[column]? = some .doubleWord) {n : Nat}
    (hcell : image.cell table row column = .ok n) : n < 0x100000000 :=
  cell_lt h htable hcolumn (fun _ _ => rfl) hcell

/-- A number in a column of two bytes is one of two bytes. -/
theorem cell_lt_of_word {data : Bytes} (h : Image.read data = .ok image)
    (htable : table < Table.count) (hcolumn : (columns table)[column]? = some .word) {n : Nat}
    (hcell : image.cell table row column = .ok n) : n < 0x10000 :=
  cell_lt h htable hcolumn (fun _ _ => rfl) hcell

/-- Two cells with a byte in common are the same cell. -/
theorem cell_unique {data : Bytes} (h : Image.read data = .ok image)
    {offset width table' row' column' offset' width' : Nat}
    (hcell : image.metadata.layout.cell table row column = .ok (offset, width))
    (hcell' : image.metadata.layout.cell table' row' column' = .ok (offset', width')) {i : Nat}
    (hi : offset ≤ i ∧ i < offset + width) (hi' : offset' ≤ i ∧ i < offset' + width') :
    (table, row, column) = (table', row', column') := by
  obtain ⟨-, -, header, hlayout, -⟩ := layout_of_read h
  rw [hlayout] at hcell hcell'
  by_contra hne
  rcases Metadata.cells_apart hcell hcell' hne with hbefore | hbehind
  · omega
  · omega

end PublicAssembly.Image
