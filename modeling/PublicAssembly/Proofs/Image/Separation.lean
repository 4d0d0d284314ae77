import PublicAssembly.Proofs.Image.Alike
import PublicAssembly.Proofs.Image.Parts
import PublicAssembly.Proofs.Image.Publishing

/-!
# Images whose pieces are apart

Nothing in a PE file keeps its pieces apart: a method body may lie in a table, and a table in the
headers. An image is `Separate` when what is written for a promoted module is apart from what is
looked at to read an image, bodies are apart from the tables, and two bodies are apart unless they
begin at the same place. All of this can be computed from the image.

## Main definitions

* `Image.bodies`: the bodies of the methods of all types;
* `Image.Separate`: the pieces of an image are apart.

## Main statements

* `mem_bodies`: which bodies an image has;
* `Body.read_congr`: a body depends on its own bytes alone.
-/

namespace PublicAssembly.Image

open Metadata (Table)
open Reading

/-! ### Bodies -/

namespace Body

variable {data out : Bytes} {offset : Nat} {place : Body} {code : Bytes}

/-- The bytes of a body: its header and its code. -/
def span (body : Body) : Span :=
  ⟨body.headerOffset, body.headerSize + body.codeSize⟩

/-- What it takes to read the header of a body. -/
theorem readHeader_eq_ok_iff :
    readHeader data offset = .ok place ↔ ∃ first, data.byte offset = .ok first ∧
      (first.toNat % 4 = 2 ∧ place = ⟨offset, 1, first.toNat / 4⟩ ∨
        first.toNat % 4 = 3 ∧ ∃ flags codeSize, data.number offset 2 = .ok flags ∧
          minFatHeader ≤ flags / 4096 * 4 ∧ data.number (offset + 4) 4 = .ok codeSize ∧
          place = ⟨offset, flags / 4096 * 4, codeSize⟩) := by
  simp only [readHeader, bind_eq_ok_iff, throw_eq, error_bind]
  refine exists_congr fun first => and_congr_right fun _ => ?_
  by_cases htiny : first.toNat % 4 = 2
  · simp [htiny, eq_comm (a := place)]
  · by_cases hfat : first.toNat % 4 = 3
    · simp only [hfat, Nat.reduceEqDiff, if_false, if_true, bind_eq_ok_iff,
        ite_error_eq_ok_iff, Nat.not_lt, pure_eq_ok_iff, false_and, true_and, false_or,
        exists_and_left, eq_comm (a := place)]
    · simp [htiny, hfat]

/-- What it takes to read a body. -/
theorem read_eq_ok_iff :
    Body.read data offset = .ok (place, code) ↔
      readHeader data offset = .ok place ∧ data.slice place.codeOffset place.codeSize = .ok code := by
  simp only [Body.read, Body.code, bind_eq_ok_iff, pure_eq_ok_iff, Prod.mk.injEq]
  constructor
  · rintro ⟨_, hplace, _, hcode, rfl, rfl⟩
    exact ⟨hplace, hcode⟩
  · rintro ⟨hplace, hcode⟩
    exact ⟨place, hplace, code, hcode, rfl, rfl⟩

/-- A header says where it begins, and takes at least a byte. -/
theorem place_of_readHeader (h : readHeader data offset = .ok place) :
    place.headerOffset = offset ∧ 0 < place.headerSize ∧ offset < data.size := by
  obtain ⟨first, hfirst, hformat⟩ := readHeader_eq_ok_iff.1 h
  have hroom : offset < data.size := by
    by_contra hout
    rw [Bytes.byte, Array.getElem?_eq_none (by omega)] at hfirst
    cases hfirst
  rcases hformat with ⟨-, rfl⟩ | ⟨-, flags, codeSize, -, hle, -, rfl⟩
  · exact ⟨rfl, Nat.one_pos, hroom⟩
  · exact ⟨rfl, Nat.lt_of_lt_of_le (by decide) hle, hroom⟩

/-- A body begins with its header, which takes at least a byte. -/
theorem header_of_read (h : Body.read data offset = .ok (place, code)) :
    place.headerOffset = offset ∧ 0 < place.headerSize ∧ offset < data.size :=
  place_of_readHeader (read_eq_ok_iff.1 h).1

/-- The header of a body depends on its own bytes alone. -/
theorem readHeader_congr (h : readHeader data offset = .ok place) (hsize : data.size = out.size)
    (hagree : data.AgreeOn out place.headerOffset place.headerSize) :
    readHeader out offset = .ok place := by
  obtain ⟨hplace, hpos, -⟩ := place_of_readHeader h
  obtain ⟨first, hfirst, hformat⟩ := readHeader_eq_ok_iff.1 h
  rw [Bytes.byte_congr (hagree.mono (by omega) (by omega))] at hfirst
  refine readHeader_eq_ok_iff.2 ⟨first, hfirst, ?_⟩
  rcases hformat with htiny | ⟨hformat, flags, codeSize, hflags, hle, hcodeSize, rfl⟩
  · exact .inl htiny
  · have hfat : 12 ≤ flags / 4096 * 4 := hle
    rw [Bytes.number_congr (hagree.mono (by simp) (by simp; omega)) hsize] at hflags hcodeSize
    exact .inr ⟨hformat, flags, codeSize, hflags, hle, hcodeSize, rfl⟩

/-- A body depends on its own bytes alone. -/
theorem read_congr (h : Body.read data offset = .ok (place, code)) (hsize : data.size = out.size)
    (hagree : data.AgreeIn out place.span) : Body.read out offset = .ok (place, code) := by
  replace hagree : data.AgreeOn out place.headerOffset (place.headerSize + place.codeSize) :=
    hagree
  obtain ⟨hheader, hcode⟩ := read_eq_ok_iff.1 h
  rw [codeOffset, Bytes.slice_congr (hagree.mono (by omega) (by omega)) hsize] at hcode
  exact read_eq_ok_iff.2
    ⟨readHeader_congr hheader hsize (hagree.mono (Nat.le_refl _) (by omega)), hcode⟩

/-- A header without code in front of any byte or the end of the data is an empty body. -/
theorem read_emptyHeader (h : out[offset]? = some emptyHeader) :
    Body.read out offset = .ok (⟨offset, 1, 0⟩, #[]) := by
  obtain ⟨hroom, -⟩ := Array.getElem?_eq_some_iff.1 h
  refine read_eq_ok_iff.2 ⟨readHeader_eq_ok_iff.2 ⟨emptyHeader, ?_, .inl ⟨by decide, rfl⟩⟩, ?_⟩
  · rw [Bytes.byte, h]
  · have hcode : out.slice (offset + 1) 0 = .ok #[] := by
      rw [Bytes.slice, if_pos (by omega), Except.ok.injEq, Array.extract_eq_empty_iff]
      omega
    exact hcode

end Body

/-! ### The pieces of an image -/

/-- The cells of a column, from the first row to the last one. -/
def cellSpans (image : Image) (table column : Nat) : List Span :=
  (List.range' 1 (image.rows table)).filterMap fun row =>
    match image.metadata.layout.cell table row column with
    | .ok (offset, width) => some ⟨offset, width⟩
    | .error _ => none

/-- The flag words of all types, fields and methods. -/
def flagSpans (image : Image) : List Span :=
  flagColumns.flatMap fun (table, column) => image.cellSpans table column

/-- The rows of each table. -/
def tableSpans (image : Image) : List Span :=
  image.metadata.layout.map fun table => ⟨table.offset, table.rowSize * table.rows⟩

/-- The method rows that belong to some type. -/
def methodRows (image : Image) : List Nat :=
  match image.listRanges Table.typeDef 5 Table.methodDef with
  | .ok ranges => ranges.flatMap RowRange.rows
  | .error _ => []

/-- The body of a method row, if it has one that can be read. -/
def body? (image : Image) (row : Nat) : Option Body :=
  match image.cell Table.methodDef row 0, image.cell Table.methodDef row 1 with
  | .ok rva, .ok implFlags =>
    if rva ≠ 0 ∧ implFlags % 4 = 0 then
      match image.bodyAt rva with
      | .ok (place, _) => some place
      | .error _ => none
    else none
  | _, _ => none

/-- The bodies of the methods of all types. -/
def bodies (image : Image) : List Body :=
  image.methodRows.filterMap image.body?

/-- What is written for a promoted module is apart from the parts of the image, bodies are apart
from the tables, and two bodies are apart unless they begin at the same place. -/
structure Separate (image : Image) (parts : List Span) (strip : Bool) : Prop where
  /-- Flag words are no parts of the image. -/
  flags_parts : ∀ flag ∈ image.flagSpans, ∀ part ∈ parts, flag.Apart part
  /-- The first bytes of bodies are no parts of the image, if bodies are to be emptied. -/
  headers_parts : strip = true → ∀ body ∈ image.bodies, ∀ part ∈ parts,
    (⟨body.headerOffset, 1⟩ : Span).Apart part
  /-- No body lies in a table. -/
  bodies_tables : ∀ body ∈ image.bodies, ∀ table ∈ image.tableSpans, body.span.Apart table
  /-- Two bodies that begin at different places share nothing. -/
  bodies_bodies : ∀ body ∈ image.bodies, ∀ other ∈ image.bodies,
    body.headerOffset = other.headerOffset ∨ body.span.Apart other.span

section Pieces

variable {image : Image}

/-- A method row belongs to some type exactly if a type owns it. -/
theorem mem_methodRows {row : Nat} : row ∈ image.methodRows ↔ image.Owned 5 Table.methodDef row := by
  simp only [methodRows, Owned]
  split
  · next ranges hranges => simp [hranges, List.mem_flatMap, RowRange.mem_rows]
  · next fault hfault => simp [hfault]

/-- The body of a method row. -/
theorem body?_eq_some_iff {row : Nat} {place : Body} :
    image.body? row = some place ↔ ∃ code, image.HasBody row place code := by
  simp only [body?, HasBody]
  constructor
  · intro h
    split at h
    · next rva implFlags hrva himpl =>
      split at h
      · next hmanaged =>
        split at h
        · next _ code hat =>
          cases h
          exact ⟨code, rva, implFlags, hrva, himpl, hmanaged.1, hmanaged.2, hat⟩
        · cases h
      · cases h
    · cases h
  · rintro ⟨code, rva, implFlags, hrva, himpl, hne, hmanaged, hat⟩
    simp [hrva, himpl, hne, hmanaged, hat]

/-- The bodies of an image are those of the method rows that a type owns. -/
theorem mem_bodies {place : Body} :
    place ∈ image.bodies ↔
      ∃ row, image.Owned 5 Table.methodDef row ∧ ∃ code, image.HasBody row place code := by
  simp only [bodies, List.mem_filterMap, mem_methodRows, body?_eq_some_iff]

/-- A cell of a flag column is a flag word. -/
theorem mem_flagSpans {table row column offset width : Nat}
    (hcolumn : (table, column) ∈ flagColumns)
    (h : image.metadata.layout.cell table row column = .ok (offset, width)) :
    ⟨offset, width⟩ ∈ image.flagSpans := by
  have hrow : row ≠ 0 ∧ row ≤ image.rows table := Metadata.Layout.row_of_cell h
  refine List.mem_flatMap.2 ⟨(table, column), hcolumn, List.mem_filterMap.2 ⟨row, ?_, by simp [h]⟩⟩
  rw [List.mem_range'_1]
  omega

/-- A byte of a cell belongs to the rows of some table. -/
theorem exists_tableSpan {data : Bytes} (hread : Image.read data = .ok image)
    {table row column offset width : Nat}
    (h : image.metadata.layout.cell table row column = .ok (offset, width)) {i : Nat}
    (hi : offset ≤ i ∧ i < offset + width) : ∃ span ∈ image.tableSpans, span.Holds i := by
  obtain ⟨-, -, header, hlayout, -⟩ := layout_of_read hread
  rw [hlayout] at h
  obtain ⟨t, ht, hle, hlt⟩ := Metadata.cell_in_table h
  refine ⟨⟨t.offset, t.rowSize * t.rows⟩, ?_, ?_, ?_⟩
  · rw [tableSpans, hlayout]
    exact List.mem_map_of_mem ht
  · exact Nat.le_trans hle hi.1
  · exact Nat.lt_of_lt_of_le hi.2 hlt

end Pieces

end PublicAssembly.Image
