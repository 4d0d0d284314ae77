import PublicAssembly.Proofs.Image.Publishing

/-!
# Making an image public changes nothing else

A loaded module that is made public can always be written back, and the file then differs from the
one it was read from in the low bits of the first bytes of flag cells alone: those of all types, of
the owned methods, and of the owned fields that are not named like an event. The counts of the
promotion are the numbers of flag cells that differ.

## Main definitions

* `Image.Published`: the low bits that a promotion puts into the flag cells;
* `Image.differingRows`: the number of rows of a table whose cell differs in another file.

## Main statements

* `patch_prepare`: the file of a module that was made public, place by place.
-/

namespace PublicAssembly.Image

open Metadata (Table)
open Reading
open Publication (keptNames)

/-- The low bits that a promotion puts into the flag cell of a row, when fields of some names are
kept from it. -/
inductive Published (image : Image) (kept : List String) :
    (table row column bits : Nat) → Prop where
  /-- A type that no nesting row names becomes public. -/
  | topType {row : Nat} (hrow : row ≠ 0) (hrows : row ≤ image.rows Table.typeDef)
    (htop : ¬ image.NamesNested row) : Published image kept Table.typeDef row 0 1
  /-- A type that some nesting row names as nested becomes public in the type around it. -/
  | nestedType {row : Nat} (hrow : row ≠ 0) (hrows : row ≤ image.rows Table.typeDef)
    (hnested : image.NamesNested row) : Published image kept Table.typeDef row 0 2
  /-- A method of a type becomes public. -/
  | method {row : Nat} (howned : image.Owned 5 Table.methodDef row) :
    Published image kept Table.methodDef row 2 6
  /-- A field of a type becomes public unless its name is kept. -/
  | field {row : Nat} {name : String} (howned : image.Owned 4 Table.field row)
    (hname : image.cellString Table.field row 1 = .ok name) (hkept : name ∉ kept) :
    Published image kept Table.field row 0 6

/-- The cell has other bytes in another file. -/
def cellDiffers (image : Image) (other : Bytes) (table column row : Nat) : Bool :=
  match image.metadata.layout.cell table row column with
  | .ok (offset, width) =>
    image.metadata.data.extract offset (offset + width) ≠ other.extract offset (offset + width)
  | .error _ => false

/-- The number of rows of a table whose cell in a column has other bytes in another file. -/
def differingRows (image : Image) (other : Bytes) (table column : Nat) : Nat :=
  (List.range' 1 (image.rows table)).countP (image.cellDiffers other table column)

section Promotion

variable {data : Bytes} {m : Module} {image : Image} {name : String} {members : Membership}
  {enclosing : Enclosing} {decls : List (Tree TypeDecl)} {guard : Guard} {kept : List String}

/-- The bits of an access are those of public access if it is public. -/
theorem access_bits_eq_six_iff (access : Access) : access.bits = 6 ↔ access = .publicMember := by
  cases access <;> decide

/-- A field row that a type owns can be read. -/
theorem Loads.exists_fieldDecl (h : Loads data m image name members enclosing decls)
    {type row : Nat} (htype : type ∈ List.range' 1 (image.rows Table.typeDef))
    (hrow : row ∈ (members.fieldRange type).rows) : ∃ field, image.fieldDecl row = .ok field := by
  obtain ⟨decl, hdecl⟩ := h.exists_typeDecl htype
  obtain ⟨-, -, -, fields, -, -, -, -, hread, -, -⟩ := typeDecl_eq_ok_iff.1 hdecl
  exact exists_mapM_eq_ok_iff.1 ⟨_, hread⟩ row hrow

/-- A method row that a type owns can be read. -/
theorem Loads.exists_methodDecl (h : Loads data m image name members enclosing decls)
    {type row : Nat} (htype : type ∈ List.range' 1 (image.rows Table.typeDef))
    (hrow : row ∈ (members.methodRange type).rows) :
    ∃ method, image.methodDecl row = .ok method := by
  obtain ⟨decl, hdecl⟩ := h.exists_typeDecl htype
  obtain ⟨-, -, -, -, methods, -, -, -, -, hread, -⟩ := typeDecl_eq_ok_iff.1 hdecl
  exact exists_mapM_eq_ok_iff.1 ⟨_, hread⟩ row hrow

/-- What is published is written. -/
theorem Published.writtenBits (h : Loads data m image name members enclosing decls)
    (hguard : ∀ name, guard.keeps name = true ↔ name ∈ kept) {table row column bits : Nat}
    (hbits : Published image kept table row column bits) :
    WrittenBits image members enclosing guard table row column bits := by
  obtain ⟨hfields, hmethods⟩ := runs_of_membership h.members_eq
  have htypeRow (row : Nat) (hrow : row ≠ 0) (hrows : row ≤ image.rows Table.typeDef) :
      row ∈ List.range' 1 (image.rows Table.typeDef) := by
    rw [List.mem_range'_1]
    omega
  -- whether a type is nested is what its flag in the rows of the nesting table says
  cases hbits with
  | topType hrow hrows htop =>
    refine ⟨row, htypeRow row hrow hrows, ?_⟩
    have hflag : (enclosing.getD row none).isSome = false := by
      rw [Bool.eq_false_iff, ne_eq, h.isSome_enclosing_iff]
      exact htop
    rw [hflag]
    exact .type
  | nestedType hrow hrows hnested =>
    refine ⟨row, htypeRow row hrow hrows, ?_⟩
    have hflag := (h.isSome_enclosing_iff row).2 hnested
    rw [hflag]
    exact .type
  | method howned =>
    obtain ⟨type, htype, hrow⟩ := (hmethods.owned_iff row).1 howned
    exact ⟨type, htype, .method hrow⟩
  | field howned hname hkept =>
    obtain ⟨type, htype, hrow⟩ := (hfields.owned_iff row).1 howned
    obtain ⟨field, hfield⟩ := h.exists_fieldDecl htype hrow
    refine ⟨type, htype, ?_⟩
    have hbits : RowBits image members guard (enclosing.getD type none).isSome type _ _ _ _ :=
      .field hrow hfield
    obtain ⟨flags, name', access, -, hname', -, rfl⟩ := fieldDecl_eq_ok_iff.1 hfield
    cases hname.symm.trans hname'
    rwa [FieldDecl.publicized, if_neg (mt (hguard _).1 hkept)] at hbits

/-- What is written is published, or puts back the low bits of a field that is kept. -/
theorem WrittenBits.published_or (h : Loads data m image name members enclosing decls)
    (hguard : ∀ name, guard.keeps name = true ↔ name ∈ kept) {table row column bits : Nat}
    (hbits : WrittenBits image members enclosing guard table row column bits) :
    Published image kept table row column bits ∨
      ∃ flags, image.cell table row column = .ok flags ∧ bits = flags % 8 := by
  obtain ⟨hfields, hmethods⟩ := runs_of_membership h.members_eq
  obtain ⟨type, htype, hrow⟩ := hbits
  have hbound := List.mem_range'_1.1 htype
  cases hrow with
  | type =>
    left
    by_cases hnested : image.NamesNested row
    · rw [if_pos ((h.isSome_enclosing_iff row).2 hnested)]
      exact .nestedType (by omega) (by omega) hnested
    · rw [if_neg (mt (h.isSome_enclosing_iff row).1 hnested)]
      exact .topType (by omega) (by omega) hnested
  | method hrow => exact .inl (.method ((hmethods.owned_iff row).2 ⟨type, htype, hrow⟩))
  | field hrow hdecl =>
    obtain ⟨flags, name', access, hflags, hname', haccess, rfl⟩ := fieldDecl_eq_ok_iff.1 hdecl
    by_cases hkept : name' ∈ kept
    · -- a field that is kept is written all the same, with the access that it has
      refine .inr ⟨flags, hflags, ?_⟩
      rw [FieldDecl.publicized, if_pos ((hguard _).2 hkept)]
      exact Access.bits_of_ofFlags? haccess
    · rw [FieldDecl.publicized, if_neg (mt (hguard _).1 hkept)]
      exact .inl (.field ((hfields.owned_iff row).2 ⟨type, htype, hrow⟩) hname' hkept)

/-- Low bits that are written are low bits. -/
theorem WrittenBits.lt {table row column bits : Nat}
    (hbits : WrittenBits image members enclosing guard table row column bits) : bits < 8 := by
  obtain ⟨type, -, hrow⟩ := hbits
  rcases hrow.cases with ⟨-, -, -, rfl⟩ | ⟨-, -, -, decl, -, rfl⟩ | ⟨-, -, -, rfl⟩
  · split <;> decide
  · cases (decl.publicized guard).access <;> decide
  · decide

/-- Nothing is emptied unless bodies are stripped. -/
theorem not_emptied (change : Patch) : ¬ Emptied image members false change := by
  rintro ⟨type, -, row, -, place, code, -, hempty⟩
  simp [emptied] at hempty

/-! ### The file, place by place -/

section Bytes

variable {changes : List Patch}

/-- The first byte of a published cell gets the low bits. -/
theorem Publishes.getElem?_of_published (h : Loads data m image name members enclosing decls)
    (hguard : ∀ name, guard.keeps name = true ↔ name ∈ kept)
    (hchanges : Publishes image members enclosing guard false changes)
    {table row column bits : Nat} (hbits : Published image kept table row column bits) :
    ∃ offset width, image.metadata.layout.cell table row column = .ok (offset, width) ∧
      (applyAll data changes)[offset]? = data[offset]?.map (setLow bits) := by
  have hwritten := hbits.writtenBits h hguard
  obtain ⟨change, -, hsets⟩ := hchanges.cells _ _ _ _ hwritten
  obtain ⟨width, hcell⟩ := hsets.exists_cell
  exact ⟨_, width, hcell, hchanges.getElem?_of_writtenBits h.image_eq hwritten hcell
    fun change hempty => absurd hempty (not_emptied change)⟩

/-- A byte that begins no published cell stays. -/
theorem Publishes.getElem?_of_unpublished (h : Loads data m image name members enclosing decls)
    (hguard : ∀ name, guard.keeps name = true ↔ name ∈ kept)
    (hchanges : Publishes image members enclosing guard false changes) {i : Nat}
    (hi : ∀ table row column bits width, Published image kept table row column bits →
      image.metadata.layout.cell table row column ≠ .ok (i, width)) :
    (applyAll data changes)[i]? = data[i]? := by
  have hbody (change : Patch) : Emptied image members false change → ¬ change.Covers i :=
    fun hempty => absurd hempty (not_emptied change)
  by_cases hcell : ∃ table row column bits width,
      WrittenBits image members enclosing guard table row column bits ∧
        image.metadata.layout.cell table row column = .ok (i, width)
  · -- the cell of a field that is kept gets back its own low bits
    obtain ⟨table, row, column, bits, width, hbits, hcell⟩ := hcell
    rw [hchanges.getElem?_of_writtenBits h.image_eq hbits hcell hbody]
    rcases hbits.published_or h hguard with hpublished | ⟨flags, hflags, rfl⟩
    · exact absurd hcell (hi table row column bits width hpublished)
    · obtain ⟨change, -, hsets⟩ := hchanges.cells _ _ _ _ hbits
      obtain ⟨rfl, -⟩ := hsets.covers_iff hcell
      exact hsets.map_setLow_self h.image_eq hflags
  · simp only [not_exists, not_and] at hcell
    exact hchanges.getElem?_of_unwritten h.image_eq
      (fun table row column bits width hbits => hcell table row column bits width hbits) hbody

end Bytes

/-! ### The cells that differ -/

section Counting

variable {changes : List Patch}

/-- A byte of a cell stays, unless it is the first and the cell gets low bits. -/
theorem Publishes.getElem?_of_cell (hread : Image.read data = .ok image)
    (hchanges : Publishes image members enclosing guard false changes)
    {table row column offset width : Nat}
    (hcell : image.metadata.layout.cell table row column = .ok (offset, width)) {i : Nat}
    (hle : offset ≤ i) (hlt : i < offset + width)
    (hi : i ≠ offset ∨ ∀ bits, ¬ WrittenBits image members enclosing guard table row column bits) :
    (applyAll data changes)[i]? = data[i]? := by
  refine hchanges.getElem?_of_unwritten hread (fun table' row' column' bits' width' hbits hcell' =>
    ?_) fun change hempty => absurd hempty (not_emptied change)
  obtain ⟨change, -, hsets⟩ := hchanges.cells _ _ _ _ hbits
  obtain ⟨-, hwidth, -, -⟩ := hsets.covers_iff hcell'
  obtain ⟨rfl, rfl, rfl⟩ : table = table' ∧ row = row' ∧ column = column' := by
    simpa using cell_unique hread hcell hcell' ⟨hle, hlt⟩ ⟨Nat.le_refl i, by omega⟩
  rcases hi with hne | hnone
  · cases hcell.symm.trans hcell'
    exact hne rfl
  · exact hnone bits' hbits

/-- A flag cell differs afterwards if it gets low bits that it did not have. -/
theorem Publishes.cellDiffers_iff (hread : Image.read data = .ok image)
    (hchanges : Publishes image members enclosing guard false changes)
    {table row column flags : Nat} (hflags : image.cell table row column = .ok flags) :
    image.cellDiffers (applyAll data changes) table column row = true ↔
      ∃ bits, WrittenBits image members enclosing guard table row column bits ∧
        flags % 8 ≠ bits := by
  obtain ⟨offset, width, hcell, hnumber⟩ := cell_eq_ok_iff.1 hflags
  have hdata := (layout_of_read hread).2.1
  rw [hdata] at hnumber
  have hroom := (Bytes.number_eq_ok_iff.1 hnumber).1
  have hsize : data.size = (applyAll data changes).size := (size_applyAll data changes).symm
  have hdiffers : image.cellDiffers (applyAll data changes) table column row = true ↔
      ¬ Bytes.AgreeOn data (applyAll data changes) offset width := by
    rw [cellDiffers, hcell, hdata]
    simp only [ne_eq, decide_not, Bool.not_eq_true', decide_eq_false_iff_not]
    exact not_congr ⟨.of_extract_eq hsize hroom, fun hagree => hagree.extract_eq hsize⟩
  rw [hdiffers]
  -- only the first byte of the cell can change, and it does unless it has these low bits already
  by_cases hwritten : ∃ bits, WrittenBits image members enclosing guard table row column bits
  · obtain ⟨bits, hbits⟩ := hwritten
    obtain ⟨change, -, hsets⟩ := hchanges.cells _ _ _ _ hbits
    obtain ⟨-, hwidth, -, -⟩ := hsets.covers_iff hcell
    obtain ⟨b, hb, hlow⟩ := Bytes.exists_byte_of_number hwidth hnumber
    have hfirst := hchanges.getElem?_of_writtenBits hread hbits hcell
      fun change hempty => absurd hempty (not_emptied change)
    rw [hb, Option.map_some] at hfirst
    have hself := setLow_eq_self_iff hbits.lt b
    rw [hlow] at hself
    constructor
    · intro hne
      refine ⟨bits, hbits, fun heq => hne fun i hle hlt => ?_⟩
      by_cases hi : i = offset
      · rw [hi, hfirst, hb, hself.2 heq]
      · exact (hchanges.getElem?_of_cell hread hcell hle hlt (.inl hi)).symm
    · rintro ⟨bits', hbits', hne⟩ hagree
      have hsame := hagree offset (Nat.le_refl _) (by omega)
      rw [hfirst, hb, Option.some.injEq] at hsame
      exact hne ((hself.1 hsame.symm).trans (hbits.unique hbits'))
  · refine ⟨fun hne => absurd (fun i hle hlt => ?_) hne, fun ⟨bits, hbits, _⟩ =>
      absurd ⟨bits, hbits⟩ hwritten⟩
    exact (hchanges.getElem?_of_cell hread hcell hle hlt
      (.inr fun bits hbits => hwritten ⟨bits, hbits⟩)).symm

/-- Two lists without repetitions hold the same number of rows of some kind, if the one holds those
rows of the other that are in question. -/
theorem countP_eq_of_nodup {rows all : List Nat} (hrows : rows.Nodup) (hall : all.Nodup)
    (hsub : ∀ row ∈ rows, row ∈ all) {p q : Nat → Bool}
    (h : ∀ row ∈ all, p row = true ↔ row ∈ rows ∧ q row = true) :
    all.countP p = rows.countP q := by
  rw [List.countP_eq_length_filter, List.countP_eq_length_filter]
  refine ((List.perm_ext_iff_of_nodup (hall.filter _) (hrows.filter _)).2 fun row => ?_).length_eq
  rw [List.mem_filter, List.mem_filter]
  constructor
  · rintro ⟨hmem, hp⟩
    exact (h row hmem).1 hp
  · rintro ⟨hmem, hq⟩
    exact ⟨hsub row hmem, (h row (hsub row hmem)).2 ⟨hmem, hq⟩⟩

/-- What is counted of the members of all types is counted of the rows that have an owner. -/
theorem Loads.sum_map_countP (h : Loads data m image name members enclosing decls)
    (rangeOf : Nat → RowRange) {count : TypeDecl → Nat} (p : Nat → Bool)
    (hlinked : ∀ decl parent ids, count (decl.linked parent ids) = count decl)
    (hcount : ∀ type decl, image.typeDecl members members.accessors type = .ok decl →
      count decl = (rangeOf type).rows.countP p) :
    (m.types.toList.map count).sum =
      ((List.range' 1 (image.rows Table.typeDef)).flatMap fun type =>
        (rangeOf type).rows).countP p := by
  have hmap := h.map_types (fun _ decl => count decl)
    (fun _ type => (rangeOf type).rows.countP p) (fun _ => hlinked)
    fun _ type decl => hcount type decl
  rw [hmap, (h.perm_rows.map _).sum_nat, List.countP_flatMap]
  rfl

/-- The number of cells of owned rows that differ is the number of these rows in question. -/
theorem Runs.differingRows_eq {column target flagColumn : Nat} {rangeOf : Nat → RowRange}
    (hruns : image.Runs column target rangeOf) {other : Bytes} {p : Nat → Bool}
    (h : ∀ row, row ≠ 0 → row ≤ image.rows target →
      (image.cellDiffers other target flagColumn row = true ↔
        row ∈ (List.range' 1 (image.rows Table.typeDef)).flatMap (fun type =>
          (rangeOf type).rows) ∧ p row = true)) :
    image.differingRows other target flagColumn =
      ((List.range' 1 (image.rows Table.typeDef)).flatMap fun type =>
        (rangeOf type).rows).countP p := by
  refine countP_eq_of_nodup hruns.nodup List.nodup_range' (fun row hrow => ?_) fun row hrow => ?_
  · obtain ⟨type, htype, hmem⟩ := List.mem_flatMap.1 hrow
    have hbound := hruns.row_le htype hmem
    rw [List.mem_range'_1]
    omega
  · rw [List.mem_range'_1] at hrow
    exact h row (by omega) (by omega)

/-- Which low bits are written into the flag cell of a type row. -/
theorem writtenBits_typeDef_iff {row bits : Nat} :
    WrittenBits image members enclosing guard Table.typeDef row 0 bits ↔
      row ∈ List.range' 1 (image.rows Table.typeDef) ∧
        bits = if (enclosing.getD row none).isSome then 2 else 1 := by
  constructor
  · rintro ⟨type, htype, hbits⟩
    rcases hbits.cases with ⟨-, -, rfl, rfl⟩ | ⟨htable, -⟩ | ⟨htable, -⟩
    · exact ⟨htype, rfl⟩
    · exact absurd htable (by decide)
    · exact absurd htable (by decide)
  · rintro ⟨hrow, rfl⟩
    exact ⟨row, hrow, .type⟩

/-- Which low bits are written into the flag cell of a method row. -/
theorem writtenBits_methodDef_iff {row bits : Nat} :
    WrittenBits image members enclosing guard Table.methodDef row 2 bits ↔
      row ∈ (List.range' 1 (image.rows Table.typeDef)).flatMap (fun type =>
        (members.methodRange type).rows) ∧ bits = 6 := by
  rw [List.mem_flatMap]
  constructor
  · rintro ⟨type, htype, hbits⟩
    rcases hbits.cases with ⟨htable, -⟩ | ⟨htable, -⟩ | ⟨-, -, hmem, rfl⟩
    · exact absurd htable (by decide)
    · exact absurd htable (by decide)
    · exact ⟨⟨type, htype, hmem⟩, rfl⟩
  · rintro ⟨⟨type, htype, hmem⟩, rfl⟩
    exact ⟨type, htype, .method hmem⟩

/-- Which low bits are written into the flag cell of a field row. -/
theorem writtenBits_field_iff {row bits : Nat} {field : FieldDecl}
    (hfield : image.fieldDecl row = .ok field) :
    WrittenBits image members enclosing guard Table.field row 0 bits ↔
      row ∈ (List.range' 1 (image.rows Table.typeDef)).flatMap (fun type =>
        (members.fieldRange type).rows) ∧ bits = (field.publicized guard).access.bits := by
  rw [List.mem_flatMap]
  constructor
  · rintro ⟨type, htype, hbits⟩
    rcases hbits.cases with ⟨htable, -⟩ | ⟨-, -, hmem, field', hfield', rfl⟩ | ⟨htable, -⟩
    · exact absurd htable (by decide)
    · cases hfield.symm.trans hfield'
      exact ⟨⟨type, htype, hmem⟩, rfl⟩
    · exact absurd htable (by decide)
  · rintro ⟨⟨type, htype, hmem⟩, rfl⟩
    exact ⟨type, htype, .field hmem hfield⟩

/-- The number of types made public is the number of their flag cells that differ. -/
theorem Publishes.differingRows_typeDef (h : Loads data m image name members enclosing decls)
    (hchanges : Publishes image members enclosing guard false changes) :
    image.differingRows (applyAll data changes) Table.typeDef 0 =
      m.types.toList.countP fun decl => decl.visibility ≠ decl.publicVisibility := by
  have hmap := h.map_types
    (fun nested decl => decide (decl.visibility ≠
      if nested then Visibility.nestedPublic else .publicType))
    (fun nested type =>
      okAnd (fun flags => flags % 8 ≠ if nested then 2 else 1) (image.cell Table.typeDef type 0))
    (fun _ _ _ _ => rfl) fun nested type decl hdecl => by
      obtain ⟨flags, -, -, -, -, hflags, -, -, -, -, rfl⟩ := typeDecl_eq_ok_iff.1 hdecl
      rw [hflags, okAnd, ← Visibility.bits_ofFlags]
      cases nested <;> cases Visibility.ofFlags flags <;> rfl
  -- the types are counted in the order of the ids, and the flag cells in that of the rows
  have hcount := congrArg (List.countP id) hmap
  rw [List.countP_map, List.countP_map, h.perm_rows.countP_eq] at hcount
  refine Eq.trans (List.countP_congr fun row hrow => ?_) hcount.symm
  have hbound := List.mem_range'_1.1 hrow
  obtain ⟨flags, hflags⟩ := exists_cell h.image_eq (show Table.typeDef < Table.count by decide)
    (show 0 < (Metadata.columns Table.typeDef).length by decide) (show row ≠ 0 by omega) (by omega)
  rw [hchanges.cellDiffers_iff h.image_eq hflags]
  simp only [writtenBits_typeDef_iff, hrow, true_and, exists_eq_left, Function.comp_apply, id,
    hflags, okAnd, decide_eq_true_eq]

/-- A method is public if the low bits of its flag word say so. -/
theorem isPublic_methodDecl_iff {row flags : Nat} {method : MethodDecl}
    (hmethod : image.methodDecl row = .ok method)
    (hflags : image.cell Table.methodDef row 2 = .ok flags) :
    method.isPublic = true ↔ flags % 8 = 6 := by
  obtain ⟨rva, implFlags, flags', name', signature, blob, access, returnType, body, -, -, hflags',
    -, -, -, haccess, -, -, rfl⟩ := methodDecl_eq_ok_iff.1 hmethod
  cases hflags.symm.trans hflags'
  rw [← Access.bits_of_ofFlags? haccess, access_bits_eq_six_iff]
  exact beq_iff_eq

/-- The number of methods made public is the number of their flag cells that differ. -/
theorem Publishes.differingRows_methodDef (h : Loads data m image name members enclosing decls)
    (hchanges : Publishes image members enclosing guard false changes) :
    image.differingRows (applyAll data changes) Table.methodDef 2 =
      (m.types.toList.map fun decl => decl.methods.countP (!·.isPublic)).sum := by
  obtain ⟨-, hmethods⟩ := runs_of_membership h.members_eq
  rw [h.sum_map_countP members.methodRange
    (fun row => okAnd (!·.isPublic) (image.methodDecl row)) (fun _ _ _ => rfl)
    fun type decl hdecl => ?_]
  · -- the cell of a row differs if a type owns the row and its method was not public
    refine hmethods.differingRows_eq fun row hrow hrows => ?_
    obtain ⟨flags, hflags⟩ := exists_cell h.image_eq (show Table.methodDef < Table.count by decide)
      (show 2 < (Metadata.columns Table.methodDef).length by decide) hrow hrows
    rw [hchanges.cellDiffers_iff h.image_eq hflags]
    simp only [writtenBits_methodDef_iff, and_assoc, exists_and_left, exists_eq_left]
    refine and_congr_right fun hmem => ?_
    obtain ⟨type, htype, hmem⟩ := List.mem_flatMap.1 hmem
    obtain ⟨method, hmethod⟩ := h.exists_methodDecl htype hmem
    rw [hmethod, okAnd, Bool.not_eq_true', Bool.eq_false_iff, ne_eq,
      ne_eq, isPublic_methodDecl_iff hmethod hflags]
  · obtain ⟨-, -, -, -, methods, -, -, -, -, hread, rfl⟩ := typeDecl_eq_ok_iff.1 hdecl
    exact countP_mapM _ hread

/-- A field gets low bits that it did not have if it is neither kept nor public. -/
theorem bits_ne_publicized_iff {row flags : Nat} {field : FieldDecl}
    (hfield : image.fieldDecl row = .ok field)
    (hflags : image.cell Table.field row 0 = .ok flags) :
    flags % 8 ≠ (field.publicized guard).access.bits ↔
      (!guard.keeps field.name && !field.isPublic) = true := by
  obtain ⟨flags', name', access, hflags', -, haccess, rfl⟩ := fieldDecl_eq_ok_iff.1 hfield
  cases hflags.symm.trans hflags'
  rw [← Access.bits_of_ofFlags? haccess]
  by_cases hkeeps : guard.keeps name' = true
  · simp [FieldDecl.publicized, hkeeps]
  · simp only [FieldDecl.publicized, hkeeps, FieldDecl.promote, FieldDecl.isPublic,
      Bool.false_eq_true, if_false, Bool.not_false, Bool.true_and]
    cases access <;> decide

/-- The number of fields made public is the number of their flag cells that differ. -/
theorem Publishes.differingRows_field (h : Loads data m image name members enclosing decls)
    (hchanges : Publishes image members enclosing guard false changes) :
    image.differingRows (applyAll data changes) Table.field 0 =
      (m.types.toList.map fun decl =>
        decl.fields.countP fun field => !guard.keeps field.name && !field.isPublic).sum := by
  obtain ⟨hfields, -⟩ := runs_of_membership h.members_eq
  rw [h.sum_map_countP members.fieldRange
    (fun row => okAnd (fun field => !guard.keeps field.name && !field.isPublic)
      (image.fieldDecl row)) (fun _ _ _ => rfl) fun type decl hdecl => ?_]
  · -- the cell of a row differs if a type owns the row and its field is neither kept nor public
    refine hfields.differingRows_eq fun row hrow hrows => ?_
    obtain ⟨flags, hflags⟩ := exists_cell h.image_eq (show Table.field < Table.count by decide)
      (show 0 < (Metadata.columns Table.field).length by decide) hrow hrows
    rw [hchanges.cellDiffers_iff h.image_eq hflags]
    by_cases hmem : row ∈ (List.range' 1 (image.rows Table.typeDef)).flatMap fun type =>
        (members.fieldRange type).rows
    · obtain ⟨type, htype, hmem'⟩ := List.mem_flatMap.1 hmem
      obtain ⟨field, hfield⟩ := h.exists_fieldDecl htype hmem'
      simp only [writtenBits_field_iff hfield, hmem, true_and, exists_eq_left, hfield, okAnd]
      exact bits_ne_publicized_iff hfield hflags
    · refine ⟨?_, fun hrow => absurd hrow.1 hmem⟩
      rintro ⟨bits, ⟨type, htype, hbits⟩, -⟩
      rcases hbits.cases with ⟨htable, -⟩ | ⟨-, -, hrow, -⟩ | ⟨htable, -⟩
      · exact absurd htable (by decide)
      · exact absurd (List.mem_flatMap.2 ⟨type, htype, hrow⟩) hmem
      · exact absurd htable (by decide)
  · obtain ⟨-, -, -, fields, -, -, -, -, hread, -, rfl⟩ := typeDecl_eq_ok_iff.1 hdecl
    exact countP_mapM _ hread

end Counting

end Promotion

/-- A loaded module that was made public, and not stripped, can be written back into its file. The
file keeps its size; the first byte of each published flag cell gets its low bits, and all other
bytes stay. The counts of the promotion are the numbers of flag cells that differ. -/
theorem patch_prepare {data : Bytes} {m : Module} {image : Image}
    (hread : Image.read data = .ok image) (hload : load data = .ok m) (hfits : image.FitsTokens)
    (settings : PromotionSettings) (hstrip : settings.stripBodies = false) :
    ∃ out, patch (Publication.prepare settings m).module data = .ok out ∧ out.size = data.size ∧
      (∀ table row column bits, Published image (keptNames settings m) table row column bits →
        ∃ offset width, image.metadata.layout.cell table row column = .ok (offset, width) ∧
          out[offset]? = data[offset]?.map (setLow bits)) ∧
      (∀ i, (∀ table row column bits width,
          Published image (keptNames settings m) table row column bits →
            image.metadata.layout.cell table row column ≠ .ok (i, width)) →
        out[i]? = data[i]?) ∧
      (Publication.prepare settings m).counts.types =
        image.differingRows out Table.typeDef 0 ∧
      (Publication.prepare settings m).counts.methods =
        image.differingRows out Table.methodDef 2 ∧
      (Publication.prepare settings m).counts.fields =
        image.differingRows out Table.field 0 := by
  obtain ⟨image', name, members, enclosing, decls, h⟩ := load_eq_ok_iff.1 hload
  cases hread.symm.trans h.image_eq
  -- the names that the guard keeps are those of the events, so that what is written is what is
  -- published, up to fields that stay as they are
  have hguard := Publication.keeps_guardOf settings h.size_eq h.flatten_eq
  obtain ⟨changes, hpatches, hchanges⟩ := patches_prepare h hfits settings
  rw [hstrip] at hchanges
  have hcounts := Module.counts_promote h.size_eq (Publication.guardOf settings m m.flatten)
  rw [← h.flatten_eq] at hcounts
  refine ⟨applyAll data changes, patch_eq_ok_iff.2 ⟨_, _, hread, hpatches, rfl⟩,
    size_applyAll data changes, ?_, ?_, ?_, ?_, ?_⟩
  · intro table row column bits hbits
    exact hchanges.getElem?_of_published h hguard hbits
  · intro i hi
    exact hchanges.getElem?_of_unpublished h hguard hi
  · rw [hchanges.differingRows_typeDef h, Publication.counts_prepare, hcounts]
  · rw [hchanges.differingRows_methodDef h, Publication.counts_prepare, hcounts]
  · rw [hchanges.differingRows_field h, Publication.counts_prepare, hcounts]

/-- A small image. Its first type has a method with a body of two instructions; the second type is
nested in the first and has a private field and a method without a body. -/
def smallImage : Bytes :=
  let zeros (n : Nat) : List UInt8 := List.replicate n 0
  let dos := [0x4D, 0x5A] ++ zeros 58 ++ [0x40, 0, 0, 0]
  let pe := [0x50, 0x45, 0, 0, 0x4C, 1, 1, 0] ++ zeros 12 ++ [0xD8, 0, 0, 0]
  let optional := [0x0B, 1] ++ zeros 90 ++ [0x0F, 0, 0, 0]
  let directories := zeros 112 ++ [0x58, 0x11, 0, 0, 0x48, 0, 0, 0]
  let sections := zeros 8 ++ [9, 2, 0, 0, 0, 0x10, 0, 0, 9, 2, 0, 0] ++ zeros 20
  let cliHeader := zeros 8 ++ [0x64, 0x11, 0, 0]
  let root := [0x42, 0x53, 0x4A, 0x42] ++ zeros 14 ++ [2, 0]
  let streams := [0x30, 0, 0, 0, 0x6A, 0, 0, 0, 0x23, 0x7E, 0, 0] ++
    [0x9A, 0, 0, 0, 8, 0, 0, 0, 0x23, 0x42, 0x6C, 0x6F, 0x62, 0, 0, 0]
  let tableHeader := zeros 8 ++ [0x54, 0, 0, 0, 0, 2, 0, 0] ++ zeros 8 ++
    [2, 0, 0, 0, 1, 0, 0, 0, 2, 0, 0, 0, 1, 0, 0, 0]
  let types := [0, 1, 0, 0, 0, 0, 0, 0, 0, 0, 1, 0, 1, 0] ++
    [3, 1, 0, 0, 0, 0, 0, 0, 0, 0, 1, 0, 2, 0]
  let fields := [0x11, 0, 0, 0, 0, 0]
  let methods := [6, 0x12, 0, 0, 0, 0, 0x91, 0, 0, 0, 1, 0, 1, 0] ++
    [0, 0, 0, 0, 0, 0, 0x93, 0, 0, 0, 1, 0, 1, 0]
  let nesting := [2, 0, 1, 0]
  let blobs := [0, 3, 0, 0, 1, 0, 0, 0]
  let body := [0x0A, 0x17, 0x2A]
  (dos ++ pe ++ optional ++ directories ++ sections ++ cliHeader ++ root ++ streams ++
    tableHeader ++ types ++ fields ++ methods ++ nesting ++ blobs ++ body).toArray

/-- The file holds a module that passes a test, and tokens can name all its rows. -/
def holdsModule (p : Module → Bool) (data : Bytes) : Bool :=
  okAnd (fun (image, name, members) =>
    decide (image.rows Table.typeDef < 0x1000000 ∧ image.rows Table.field < 0x1000000 ∧
      image.rows Table.methodDef < 0x1000000) && okAnd p (image.loadTypes name members))
    (survey data)

/-- A file that was tried out to hold a module does. -/
theorem exists_load {p : Module → Bool} {data : Bytes} (h : holdsModule p data = true) :
    ∃ image m, Image.read data = .ok image ∧ load data = .ok m ∧ image.FitsTokens ∧
      p m = true := by
  obtain ⟨⟨image, name, members⟩, hsurvey, htests⟩ := okAnd_eq_true_iff.1 h
  obtain ⟨hfits, hload⟩ := Bool.and_eq_true_iff.1 htests
  obtain ⟨htypes, hfields, hmethods⟩ := of_decide_eq_true hfits
  obtain ⟨m, hm, hp⟩ := okAnd_eq_true_iff.1 hload
  have hread : Image.read data = .ok image := (survey_eq_ok_iff.1 hsurvey).1
  exact ⟨image, m, hread, by rw [load, hsurvey]; exact hm, ⟨htypes, hfields, hmethods⟩, hp⟩

/-- The small image holds a module, and tokens can name all its rows. -/
theorem exists_load_smallImage :
    ∃ image m, Image.read smallImage = .ok image ∧ load smallImage = .ok m ∧
      image.FitsTokens := by
  have htry : holdsModule (fun _ => true) smallImage = true := by
    decide +kernel
  obtain ⟨image, m, himage, hm, hfits, -⟩ := exists_load htry
  exact ⟨image, m, himage, hm, hfits⟩

/-- The small image is written back with its two types, its field and its methods public. -/
theorem patch_prepare_smallImage :
    ∃ m out, load smallImage = .ok m ∧
      patch (Publication.prepare { keepEventFields := true } m).module smallImage = .ok out ∧
      out.size = smallImage.size := by
  obtain ⟨image, m, himage, hm, hfits⟩ := exists_load_smallImage
  obtain ⟨out, hout, hsize, -⟩ :=
    patch_prepare himage hm hfits { keepEventFields := true } rfl
  exact ⟨m, out, hm, hout, hsize⟩

end PublicAssembly.Image
