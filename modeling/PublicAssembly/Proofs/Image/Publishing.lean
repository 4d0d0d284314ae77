import PublicAssembly.Proofs.Image.Writing

/-!
# The file of a module that was made public

A loaded module that was prepared is written back by changes of low bits, one for each type row and
one for each owned field and method row, and by changes that empty bodies (`patches_prepare`). As
no two cells share a byte, the file can then be described place by place.

## Main definitions

* `Image.WrittenBits`: which low bits are written into which cells;
* `Image.Emptied`: which changes empty a body.

## Main statements

* `patches_prepare`: what is written for a prepared module;
* `getElem?_of_writtenBits`: the first byte of a written cell gets the low bits;
* `getElem?_of_unwritten`: every other byte stays, unless a body is emptied there.
-/

namespace PublicAssembly.Image

open Metadata (Table)
open Reading
open PublicAssembly.Tree (preorderAll)

/-- The low bits that are written for the types of an image and their members. -/
def WrittenBits (image : Image) (members : Membership) (enclosing : Enclosing) (guard : Guard)
    (table row column bits : Nat) : Prop :=
  ∃ type ∈ List.range' 1 (image.rows Table.typeDef),
    RowBits image members guard (enclosing.getD type none).isSome type table row column bits

/-- The change empties the body of a method of some type. -/
def Emptied (image : Image) (members : Membership) (strip : Bool) (change : Patch) : Prop :=
  ∃ type ∈ List.range' 1 (image.rows Table.typeDef), EmptiesBody image members strip type change

/-- The changes put the low bits into the cells that get some, and empty bodies. -/
structure Publishes (image : Image) (members : Membership) (enclosing : Enclosing) (guard : Guard)
    (strip : Bool) (changes : List Patch) : Prop where
  /-- Every change puts low bits into a cell or empties a body. -/
  sound : ∀ change ∈ changes,
    (∃ table row column bits, WrittenBits image members enclosing guard table row column bits ∧
      image.SetsLow change table row column bits) ∨ Emptied image members strip change
  /-- Every cell that gets low bits is changed. -/
  cells : ∀ table row column bits,
    WrittenBits image members enclosing guard table row column bits →
      ∃ change ∈ changes, image.SetsLow change table row column bits
  /-- Every body that is to be emptied is. -/
  bodies : ∀ change, Emptied image members strip change → change ∈ changes

section Publishing

variable {data : Bytes} {m : Module} {image : Image} {name : String} {members : Membership}
  {enclosing : Enclosing} {decls : List (Tree TypeDecl)}

/-- The three tables whose rows tokens name have no more rows than a token can name. -/
structure FitsTokens (image : Image) : Prop where
  /-- Every type row has a token. -/
  types : image.rows Table.typeDef < 0x1000000
  /-- Every field row has a token. -/
  fields : image.rows Table.field < 0x1000000
  /-- Every method row has a token. -/
  methods : image.rows Table.methodDef < 0x1000000

/-! ### What is written -/

/-- What becomes of a loaded module is an edit of every type. -/
theorem Loads.module_prepare (h : Loads data m image name members enclosing decls)
    (settings : PromotionSettings) :
    (Publication.prepare settings m).module = m.mapTypes fun decl =>
      (decl.publicized (Publication.guardOf settings m m.flatten) decl.isNested).strippedIf
        settings.stripBodies :=
  Publication.module_prepare settings h.size_eq h.flatten_eq

/-- The types of a loaded module can be written back after an edit if each type row can. -/
theorem Loads.exists_patches (h : Loads data m image name members enclosing decls)
    (hfits : image.FitsTokens) (edit : Bool → TypeDecl → TypeDecl)
    (hedit : ∀ nested decl parent ids,
      image.typePatches (edit nested (decl.linked parent ids)) =
        image.typePatches (edit nested decl))
    (belongs : Nat → List Patch → Prop)
    (hwrite : ∀ type < 0x1000000, (∀ row ∈ (members.fieldRange type).rows, row < 0x1000000) →
      (∀ row ∈ (members.methodRange type).rows, row < 0x1000000) → ∀ decl,
        image.typeDecl members members.accessors type = .ok decl →
          ∃ changes, image.typePatches (edit (enclosing.getD type none).isSome decl) = .ok changes ∧
            belongs type changes) :
    ∃ written : List (List Patch),
      image.patches (m.mapTypes fun decl => edit decl.isNested decl) = .ok written.flatten ∧
      (∀ changes ∈ written, ∃ type ∈ List.range' 1 (image.rows Table.typeDef),
        belongs type changes) ∧
      ∀ type ∈ List.range' 1 (image.rows Table.typeDef), ∃ changes ∈ written,
        belongs type changes := by
  obtain ⟨hfieldRuns, hmethodRuns⟩ := runs_of_membership h.members_eq
  -- the types are written one by one, as the type rows are listed
  have htypes : (m.mapTypes fun decl => edit decl.isNested decl).types.toList.map
      image.typePatches = (preorderAll enclosing.forest).map fun type =>
        image.typeDecl members members.accessors type >>= fun decl =>
          image.typePatches (edit (enclosing.getD type none).isSome decl) := by
    rw [Module.mapTypes, Array.toList_map, List.map_map]
    exact h.map_types (fun nested decl => image.typePatches (edit nested decl))
      (fun nested type => image.typeDecl members members.accessors type >>= fun decl =>
        image.typePatches (edit nested decl))
      hedit fun nested row decl hdecl => by rw [hdecl, ok_bind]
  obtain ⟨written, hwritten, hfrom, hto⟩ := exists_mapM (preorderAll enclosing.forest)
    (fun type => image.typeDecl members members.accessors type >>= fun decl =>
      image.typePatches (edit (enclosing.getD type none).isSome decl))
    belongs fun type htype => by
      have hrow := h.perm_rows.mem_iff.1 htype
      obtain ⟨decl, hdecl⟩ := h.exists_typeDecl hrow
      have hbound := List.mem_range'_1.1 hrow
      have htypes := hfits.types
      rw [hdecl, ok_bind]
      exact hwrite type (by omega)
        (fun row hmem => Nat.lt_of_le_of_lt (hfieldRuns.row_le hrow hmem).2 hfits.fields)
        (fun row hmem => Nat.lt_of_le_of_lt (hmethodRuns.row_le hrow hmem).2 hfits.methods)
        decl hdecl
  rw [mapM_eq_ok_iff, ← htypes, ← mapM_eq_ok_iff] at hwritten
  refine ⟨written, by rw [patches, hwritten]; rfl, fun changes hchanges => ?_,
    fun type hrow => hto type (h.perm_rows.mem_iff.2 hrow)⟩
  obtain ⟨type, htype, hbelongs⟩ := hfrom changes hchanges
  exact ⟨type, h.perm_rows.mem_iff.1 htype, hbelongs⟩

/-- What is written for a prepared module: a change of low bits for each cell that gets some, and
one change for each body to be emptied. -/
theorem patches_prepare (h : Loads data m image name members enclosing decls)
    (hfits : image.FitsTokens) (settings : PromotionSettings) :
    ∃ changes, image.patches (Publication.prepare settings m).module = .ok changes ∧
      Publishes image members enclosing (Publication.guardOf settings m m.flatten)
        settings.stripBodies changes := by
  set guard := Publication.guardOf settings m m.flatten
  set strip := settings.stripBodies
  obtain ⟨written, hwritten, hfrom, hto⟩ := h.exists_patches hfits
    (fun nested decl => (decl.publicized guard nested).strippedIf strip) (fun _ _ _ _ => rfl)
    (fun type changes =>
      (∀ change ∈ changes,
        (∃ table row column bits,
          RowBits image members guard (enclosing.getD type none).isSome type table row column
            bits ∧ image.SetsLow change table row column bits) ∨
        EmptiesBody image members strip type change) ∧
      (∀ table row column bits,
        RowBits image members guard (enclosing.getD type none).isSome type table row column bits →
          ∃ change ∈ changes, image.SetsLow change table row column bits) ∧
      ∀ change, EmptiesBody image members strip type change → change ∈ changes)
    fun type htype hfields hmethods decl hdecl =>
      typePatches_publicized h.image_eq htype hfields hmethods guard _ strip hdecl
  refine ⟨written.flatten, ?_, ⟨fun change hchange => ?_, ?_, ?_⟩⟩
  · -- what is written for the module is what is written for its types, each with its changes
    rw [h.module_prepare]
    exact hwritten
  · obtain ⟨changes, hchanges, hmem⟩ := List.mem_flatten.1 hchange
    obtain ⟨type, hrow, hbelongs, -⟩ := hfrom changes hchanges
    rcases hbelongs change hmem with ⟨table, row, column, bits, hbits, hsets⟩ | hempties
    · exact .inl ⟨table, row, column, bits, ⟨type, hrow, hbits⟩, hsets⟩
    · exact .inr ⟨type, hrow, hempties⟩
  · rintro table row column bits ⟨type, hrow, hbits⟩
    obtain ⟨changes, hchanges, -, hcells, -⟩ := hto type hrow
    obtain ⟨change, hchange, hsets⟩ := hcells table row column bits hbits
    exact ⟨change, List.mem_flatten_of_mem hchanges hchange, hsets⟩
  · rintro change ⟨type, hrow, hempties⟩
    obtain ⟨changes, hchanges, -, -, hbodies⟩ := hto type hrow
    exact List.mem_flatten_of_mem hchanges (hbodies change hempties)

/-! ### What is there afterwards -/

/-- The low bits of a type row and its members, by the table. -/
theorem RowBits.cases {guard : Guard} {nested : Bool} {type table row column bits : Nat}
    (h : RowBits image members guard nested type table row column bits) :
    (table = Table.typeDef ∧ column = 0 ∧ row = type ∧ bits = if nested then 2 else 1) ∨
      (table = Table.field ∧ column = 0 ∧ row ∈ (members.fieldRange type).rows ∧
        ∃ decl, image.fieldDecl row = .ok decl ∧ bits = (decl.publicized guard).access.bits) ∨
      table = Table.methodDef ∧ column = 2 ∧ row ∈ (members.methodRange type).rows ∧ bits = 6 := by
  cases h with
  | type => exact .inl ⟨rfl, rfl, rfl, rfl⟩
  | field hrow hdecl => exact .inr (.inl ⟨rfl, rfl, hrow, _, hdecl, rfl⟩)
  | method hrow => exact .inr (.inr ⟨rfl, rfl, hrow, rfl⟩)

/-- One cell gets the same low bits from all types. -/
theorem WrittenBits.unique {guard : Guard} {table row column bits bits' : Nat}
    (h : WrittenBits image members enclosing guard table row column bits)
    (h' : WrittenBits image members enclosing guard table row column bits') : bits = bits' := by
  obtain ⟨type, -, hbits⟩ := h
  obtain ⟨type', -, hbits'⟩ := h'
  rcases hbits.cases with ⟨htable, -, rfl, rfl⟩ | ⟨htable, -, -, decl, hdecl, rfl⟩ |
      ⟨htable, -, -, rfl⟩ <;>
    rcases hbits'.cases with ⟨htable', -, rfl, rfl⟩ | ⟨htable', -, -, decl', hdecl', rfl⟩ |
      ⟨htable', -, -, rfl⟩ <;>
    first
    | rfl
    | exact absurd (htable.symm.trans htable') (by decide)
    | rw [Except.ok.inj (hdecl.symm.trans hdecl')]

section Bytes

variable {guard : Guard} {strip : Bool} {changes : List Patch}

/-- The first byte of a cell that gets low bits has them afterwards, unless a body is emptied
there. -/
theorem Publishes.getElem?_of_writtenBits (hread : Image.read data = .ok image)
    (h : Publishes image members enclosing guard strip changes)
    {table row column bits offset width : Nat}
    (hbits : WrittenBits image members enclosing guard table row column bits)
    (hcell : image.metadata.layout.cell table row column = .ok (offset, width))
    (hbody : ∀ change, Emptied image members strip change → ¬ change.Covers offset) :
    (applyAll data changes)[offset]? = data[offset]?.map (setLow bits) := by
  obtain ⟨change, hchange, hsets⟩ := h.cells table row column bits hbits
  have hdata := (layout_of_read hread).2.1
  obtain ⟨-, hwidth, hroom, hcovers⟩ := hsets.covers_iff hcell
  rw [hdata] at hroom
  refine getElem?_applyAll (by omega) (fun other hother hcovered => ?_)
    (.inl ⟨change, hchange, (hcovers offset).2 (by omega)⟩)
  rcases h.sound other hother with ⟨table', row', column', bits', hbits', hsets'⟩ | hempties
  · -- a change that covers the first byte of the cell is a change of the same cell
    obtain ⟨width', hcell'⟩ := hsets'.exists_cell
    obtain ⟨-, -, -, hcovers'⟩ := hsets'.covers_iff hcell'
    obtain ⟨rfl, rfl, rfl⟩ : table = table' ∧ row = row' ∧ column = column' := by
      simpa using cell_unique hread hcell hcell' (by omega) ((hcovers' offset).1 hcovered)
    cases hcell.symm.trans hcell'
    rw [hsets'.getElem?_bytes hcovered, if_pos rfl, hdata, hbits.unique hbits']
  · exact absurd hcovered (hbody other hempties)

/-- A byte that begins no cell that gets low bits stays, unless a body is emptied there. -/
theorem Publishes.getElem?_of_unwritten (hread : Image.read data = .ok image)
    (h : Publishes image members enclosing guard strip changes) {i : Nat}
    (hcells : ∀ table row column bits width,
      WrittenBits image members enclosing guard table row column bits →
        image.metadata.layout.cell table row column ≠ .ok (i, width))
    (hbody : ∀ change, Emptied image members strip change → ¬ change.Covers i) :
    (applyAll data changes)[i]? = data[i]? := by
  have hdata := (layout_of_read hread).2.1
  rcases Nat.lt_or_ge i data.size with hi | hi
  · refine getElem?_applyAll hi (fun change hchange hcovers => ?_) (.inr rfl)
    rcases h.sound change hchange with ⟨table, row, column, bits, hbits, hsets⟩ | hempties
    · -- a change of low bits alters the first byte of its cell alone
      have hne : i ≠ change.offset := by
        rintro rfl
        obtain ⟨width, hcell⟩ := hsets.exists_cell
        exact hcells table row column bits width hbits hcell
      rw [hsets.getElem?_bytes hcovers, if_neg hne, hdata]
    · exact absurd hcovers (hbody change hempties)
  · rw [Array.getElem?_eq_none hi, Array.getElem?_eq_none (by rwa [size_applyAll])]

/-- The first byte of a body that is emptied becomes the header of an empty body, unless it lies in
a cell that gets low bits. -/
theorem Publishes.getElem?_of_emptied (h : Publishes image members enclosing guard strip changes)
    {offset : Nat} (hempty : Emptied image members strip (.emptyBody offset))
    (hroom : offset < data.size)
    (hcells : ∀ table row column bits first width,
      WrittenBits image members enclosing guard table row column bits →
        image.metadata.layout.cell table row column = .ok (first, width) →
          ¬ (first ≤ offset ∧ offset < first + width)) :
    (applyAll data changes)[offset]? = some Body.emptyHeader := by
  refine getElem?_applyAll hroom (fun change hchange hcovers => ?_)
    (.inl ⟨_, h.bodies _ hempty, covers_emptyBody_iff.2 rfl⟩)
  rcases h.sound change hchange with ⟨table, row, column, bits, hbits, hsets⟩ |
    ⟨type, -, row, -, place, code, -, hother⟩
  · obtain ⟨width, hcell⟩ := hsets.exists_cell
    obtain ⟨-, -, -, hcovered⟩ := hsets.covers_iff hcell
    exact absurd ((hcovered offset).1 hcovers) (hcells _ _ _ _ _ _ hbits hcell)
  · obtain ⟨-, -, rfl⟩ := emptied_eq_some_iff.1 hother
    rw [covers_emptyBody_iff.1 hcovers]
    simp [Patch.bytes, Patch.offset]

end Bytes

end Publishing

end PublicAssembly.Image
