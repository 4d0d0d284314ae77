import PublicAssembly.Proofs.Image.Changes
import PublicAssembly.Proofs.Image.Loading
import PublicAssembly.Proofs.Promotion.Effect

/-!
# What is written for a type that was made public

A type, a field or a method that was loaded from an image is written back into the flag cell of its
row. Making it public leaves all but the low bits of the flag word as they were, so each change
replaces the low bits of one cell (`SetsLow`). Emptying a body changes its first byte.

## Main definitions

* `Image.SetsLow`: a change that replaces the low bits of a cell;
* `Image.HasBody`: the body of a method row and its code.

## Main statements

* `SetsLow.getElem?_bytes`: such a change differs from the file in one byte at most;
* `fieldPatch_publicized`, `methodPatches_publicized`, `typePatches_publicized`: what is written.
-/

namespace PublicAssembly.Image

open Metadata (Table TableHeader columns)
open Reading

/-! ### Tokens and flag words -/

/-- The row of the token of a row is the row. -/
theorem tokenRow_token {table row : Nat} (htable : table < 256) (hrow : row < 0x1000000) :
    tokenRow (token table row) table = .ok row := by
  -- the table is in the highest byte, and the row has room in the three others
  have hvalue : (token table row).toNat = table * 0x1000000 + row := by
    have hor : table <<< 24 ||| row = table <<< 24 + row :=
      (Nat.shiftLeft_add_eq_or_of_lt (by omega) table).symm
    rw [token, hor, UInt32.toNat_ofNat', Nat.shiftLeft_eq]
    omega
  have hupper : (token table row).toNat >>> 24 = table := by
    rw [hvalue, Nat.shiftRight_eq_div_pow]
    omega
  have hlower : (token table row).toNat % 1 <<< 24 = row := by
    rw [hvalue, Nat.one_shiftLeft]
    omega
  rw [tokenRow, if_pos hupper, hlower]

/-- A flag word of two bytes that was taken apart and gets another access has other low bits. -/
theorem toNat_memberFlags {flags : Nat} (h : flags < 0x10000) (access : Access) :
    (PublicAssembly.memberFlags (memberAttributes flags) access).toNat =
      withLow flags access.bits := by
  simp only [PublicAssembly.memberFlags, memberAttributes, withLow, UInt16.toNat_ofNat']
  omega

/-- A flag word of four bytes that was taken apart and gets another visibility has other low
bits. -/
theorem toNat_typeFlags {flags : Nat} (h : flags < 0x100000000) (visibility : Visibility) :
    (PublicAssembly.typeFlags (typeAttributes flags) visibility).toNat =
      withLow flags visibility.bits := by
  simp only [PublicAssembly.typeFlags, typeAttributes, withLow, UInt32.toNat_ofNat']
  omega

/-! ### Changes of low bits -/

/-- The change replaces the low bits of a cell. -/
def SetsLow (image : Image) (change : Patch) (table row column bits : Nat) : Prop :=
  ∃ width flags, image.metadata.layout.cell table row column = .ok (change.offset, width) ∧
    0 < width ∧ image.metadata.data.number change.offset width = .ok flags ∧
    change.bytes = Bytes.littleEndianBytes width (withLow flags bits)

section SetsLow

variable {image : Image} {change : Patch} {table row column bits : Nat}

/-- A change of low bits covers the bytes of its cell, which lie in the file. -/
theorem SetsLow.covers_iff (h : image.SetsLow change table row column bits) {offset width : Nat}
    (hcell : image.metadata.layout.cell table row column = .ok (offset, width)) :
    change.offset = offset ∧ 0 < width ∧ offset + width ≤ image.metadata.data.size ∧
      ∀ i, change.Covers i ↔ offset ≤ i ∧ i < offset + width := by
  obtain ⟨width', flags, hcell', hwidth, hnumber, hbytes⟩ := h
  cases hcell.symm.trans hcell'
  refine ⟨rfl, hwidth, (Bytes.number_eq_ok_iff.1 hnumber).1, fun i => ?_⟩
  rw [Patch.Covers, hbytes, Bytes.length_littleEndianBytes]

/-- A change of low bits is one of a cell. -/
theorem SetsLow.exists_cell (h : image.SetsLow change table row column bits) :
    ∃ width, image.metadata.layout.cell table row column = .ok (change.offset, width) := by
  obtain ⟨width, flags, hcell, -⟩ := h
  exact ⟨width, hcell⟩

/-- A change of low bits puts back the bytes of the file, the first with other low bits. -/
theorem SetsLow.getElem?_bytes (h : image.SetsLow change table row column bits) {i : Nat}
    (hi : change.Covers i) :
    change.bytes[i - change.offset]? =
      if i = change.offset then image.metadata.data[i]?.map (setLow bits)
      else image.metadata.data[i]? := by
  obtain ⟨width, flags, hcell, hwidth, hnumber, hbytes⟩ := h
  rw [Patch.Covers, hbytes, Bytes.length_littleEndianBytes] at hi
  rw [hbytes]
  exact Bytes.getElem?_bytes_withLow hwidth hnumber bits hi.1 hi.2

/-- The first byte of a changed cell has the low bits of its flag word. -/
theorem SetsLow.map_setLow_self (h : image.SetsLow change table row column bits) {data : Bytes}
    (hread : Image.read data = .ok image) {flags : Nat}
    (hflags : image.cell table row column = .ok flags) :
    data[change.offset]?.map (setLow (flags % 8)) = data[change.offset]? := by
  obtain ⟨offset, width, hcell, hnumber⟩ := cell_eq_ok_iff.1 hflags
  obtain ⟨rfl, hwidth, -⟩ := h.covers_iff hcell
  rw [(layout_of_read hread).2.1] at hnumber
  obtain ⟨b, hb, hlow⟩ := Bytes.exists_byte_of_number hwidth hnumber
  rw [hb, Option.map_some, ← hlow, setLow_self]

end SetsLow

/-- The offset of the cell of a row is found by the token of the row. -/
theorem tokenCell_token {image : Image} {table row column offset width : Nat}
    (htable : table < 256) (hrow : row < 0x1000000)
    (hcell : image.metadata.layout.cell table row column = .ok (offset, width)) :
    image.tokenCell (token table row) table column = .ok (row, offset) := by
  simp only [tokenCell, bind_eq_ok_iff, pure_eq_ok_iff, tokenRow_token htable hrow, hcell,
    Except.ok.injEq, exists_eq_left']

section Members

variable {data : Bytes} {image : Image} {row : Nat}

/-- The cell of a flag word of two bytes, and the change that writes back the word with another
access. -/
theorem setsLow_memberFlags (hread : Image.read data = .ok image) {table column flags : Nat}
    (htable : table < Table.count) (hcolumn : (columns table)[column]? = some .word)
    (hcell : image.cell table row column = .ok flags) (access : Access) :
    ∃ offset, image.metadata.layout.cell table row column = .ok (offset, 2) ∧
      image.SetsLow (.memberFlags offset (memberFlags (memberAttributes flags) access)) table row
        column access.bits := by
  obtain ⟨-, -, header, hlayout, -⟩ := layout_of_read hread
  obtain ⟨offset, width, hplace, hnumber⟩ := cell_eq_ok_iff.1 hcell
  have hwidth : width = 2 := by
    rw [hlayout] at hplace
    exact TableHeader.width_of_cell htable hplace hcolumn
  subst hwidth
  refine ⟨offset, hplace, 2, flags, hplace, by decide, hnumber, ?_⟩
  rw [Patch.bytes, toNat_memberFlags (Bytes.number_lt hnumber)]

/-- The cell of a flag word of four bytes, and the change that writes back the word with another
visibility. -/
theorem setsLow_typeFlags (hread : Image.read data = .ok image) {flags : Nat}
    (hcell : image.cell Table.typeDef row 0 = .ok flags) (visibility : Visibility) :
    ∃ offset, image.metadata.layout.cell Table.typeDef row 0 = .ok (offset, 4) ∧
      image.SetsLow (.typeFlags offset (typeFlags (typeAttributes flags) visibility))
        Table.typeDef row 0 visibility.bits := by
  obtain ⟨-, -, header, hlayout, -⟩ := layout_of_read hread
  obtain ⟨offset, width, hplace, hnumber⟩ := cell_eq_ok_iff.1 hcell
  have hwidth : width = 4 := by
    rw [hlayout] at hplace
    exact TableHeader.width_of_cell (by decide) hplace
      (show (columns Table.typeDef)[0]? = some .doubleWord from rfl)
  subst hwidth
  refine ⟨offset, hplace, 4, flags, hplace, by decide, hnumber, ?_⟩
  rw [Patch.bytes, toNat_typeFlags (Bytes.number_lt hnumber)]

/-! ### Fields -/

theorem memberAccess_eq_ok_iff {name : String} {flags : Nat} {access : Access} :
    memberAccess name flags = .ok access ↔ Access.ofFlags? flags = some access := by
  rw [memberAccess]
  cases Access.ofFlags? flags <;> simp

/-- What it takes to read a field. -/
theorem fieldDecl_eq_ok_iff {field : FieldDecl} :
    image.fieldDecl row = .ok field ↔ ∃ flags name access,
      image.cell Table.field row 0 = .ok flags ∧ image.cellString Table.field row 1 = .ok name ∧
        Access.ofFlags? flags = some access ∧
        field = ⟨some (token Table.field row), name, access, memberAttributes flags⟩ := by
  simp only [fieldDecl, bind_eq_ok_iff, pure_eq_ok_iff, memberAccess_eq_ok_iff,
    eq_comm (b := field)]
  constructor
  · rintro ⟨flags, hflags, name, hname, access, haccess, rfl⟩
    exact ⟨flags, name, access, hflags, hname, haccess, rfl⟩
  · rintro ⟨flags, name, access, hflags, hname, haccess, rfl⟩
    exact ⟨flags, hflags, name, hname, access, haccess, rfl⟩

/-- A field with another access is written into the low bits of its flag cell. -/
theorem fieldPatch_access (hread : Image.read data = .ok image) (hrow : row < 0x1000000)
    {field : FieldDecl} (h : image.fieldDecl row = .ok field) (access : Access) :
    ∃ change, image.fieldPatch { field with access } = .ok change ∧
      image.SetsLow change Table.field row 0 access.bits := by
  obtain ⟨flags, name, -, hflags, -, -, rfl⟩ := fieldDecl_eq_ok_iff.1 h
  obtain ⟨offset, hcell, hsets⟩ := setsLow_memberFlags hread (by decide) rfl hflags access
  refine ⟨_, ?_, hsets⟩
  simp only [fieldPatch, tokenCell_token (by decide) hrow hcell, bind_eq_ok_iff, pure_eq_ok_iff]
  exact ⟨_, rfl, rfl⟩

/-- A field that was made public is written into the low bits of its flag cell. -/
theorem fieldPatch_publicized (hread : Image.read data = .ok image) (hrow : row < 0x1000000)
    (guard : Guard) {field : FieldDecl} (h : image.fieldDecl row = .ok field) :
    ∃ change, image.fieldPatch (field.publicized guard) = .ok change ∧
      image.SetsLow change Table.field row 0 (field.publicized guard).access.bits := by
  have hkept : field.publicized guard =
      { field with access := (field.publicized guard).access } := by
    rw [FieldDecl.publicized]
    split <;> rfl
  rw [hkept]
  exact fieldPatch_access hread hrow h _

/-! ### Methods -/

/-- The method of a row has a body of the image, at the given place and with the given code. -/
def HasBody (image : Image) (row : Nat) (place : Body) (code : Bytes) : Prop :=
  ∃ rva implFlags, image.cell Table.methodDef row 0 = .ok rva ∧
    image.cell Table.methodDef row 1 = .ok implFlags ∧ rva ≠ 0 ∧ implFlags % 4 = 0 ∧
    image.bodyAt rva = .ok (place, code)

/-- The address of a body fits into the number that the body keeps of it. -/
theorem toNat_rva (hread : Image.read data = .ok image) {rva : Nat}
    (hrva : image.cell Table.methodDef row 0 = .ok rva) : (UInt32.ofNat rva).toNat = rva := by
  rw [UInt32.toNat_ofNat']
  exact Nat.mod_eq_of_lt (cell_lt_of_doubleWord hread (by decide) rfl hrva)

/-- What it takes to read the body of a method. -/
theorem methodBody_eq_ok_iff {rva implFlags : Nat} {body : Option MethodBody} :
    image.methodBody rva implFlags = .ok body ↔
      if rva ≠ 0 ∧ implFlags % 4 = 0 then
        ∃ place code, image.bodyAt rva = .ok (place, code) ∧ body = some ⟨.ofNat rva, code⟩
      else body = none := by
  rw [methodBody]
  split
  · simp [eq_comm (b := body)]
  · simp [eq_comm (b := body)]

/-- What it takes to read a method. -/
theorem methodDecl_eq_ok_iff {method : MethodDecl} :
    image.methodDecl row = .ok method ↔
      ∃ rva implFlags flags name signature blob access returnType body,
        image.cell Table.methodDef row 0 = .ok rva ∧
        image.cell Table.methodDef row 1 = .ok implFlags ∧
        image.cell Table.methodDef row 2 = .ok flags ∧
        image.cellString Table.methodDef row 3 = .ok name ∧
        image.cell Table.methodDef row 4 = .ok signature ∧
        image.metadata.blob signature = .ok blob ∧
        Access.ofFlags? flags = some access ∧
        PublicAssembly.returnType image.typeName blob.toList = .ok returnType ∧
        image.methodBody rva implFlags = .ok body ∧
        method = ⟨some (token Table.methodDef row), name, access, memberAttributes flags,
          .ofNat implFlags, returnType, body⟩ := by
  simp only [methodDecl, bind_eq_ok_iff, pure_eq_ok_iff, memberAccess_eq_ok_iff,
    eq_comm (b := method)]
  constructor
  · rintro ⟨rva, h₁, implFlags, h₂, flags, h₃, name, h₄, signature, h₅, blob, h₆, access, h₇,
      returnType, h₈, body, h₉, rfl⟩
    exact ⟨rva, implFlags, flags, name, signature, blob, access, returnType, body, h₁, h₂, h₃, h₄,
      h₅, h₆, h₇, h₈, h₉, rfl⟩
  · rintro ⟨rva, implFlags, flags, name, signature, blob, access, returnType, body, h₁, h₂, h₃, h₄,
      h₅, h₆, h₇, h₈, h₉, rfl⟩
    exact ⟨rva, h₁, implFlags, h₂, flags, h₃, name, h₄, signature, h₅, blob, h₆, access, h₇,
      returnType, h₈, body, h₉, rfl⟩

/-- The change that empties a body whose code is gone. -/
def emptied (strip : Bool) (place : Body) (code : Bytes) : Option Patch :=
  if strip = true ∧ code ≠ #[] then some (.emptyBody place.headerOffset) else none

/-- A body is emptied if bodies are stripped and it has code. -/
theorem emptied_eq_some_iff {strip : Bool} {place : Body} {code : Bytes} {change : Patch} :
    emptied strip place code = some change ↔
      strip = true ∧ code ≠ #[] ∧ change = .emptyBody place.headerOffset := by
  rw [emptied]
  split
  · next h => simp [h, eq_comm]
  · next h =>
    simp only [reduceCtorEq, false_iff]
    rintro ⟨hstrip, hcode, -⟩
    exact h ⟨hstrip, hcode⟩

/-- The change that empties a body covers its first byte. -/
theorem covers_emptyBody_iff {offset i : Nat} : (Patch.emptyBody offset).Covers i ↔ i = offset := by
  simp only [Patch.Covers, Patch.offset, Patch.bytes, List.length_singleton]
  omega

/-- A body that was left alone or lost its code is emptied if there was code to lose. -/
theorem bodyPatch_strippedIf {rva : Nat} {place : Body} {code : Bytes}
    (hcell : image.cell Table.methodDef row 0 = .ok rva) (hrva : rva ≠ 0)
    (hbody : image.bodyAt rva = .ok (place, code)) (name : String) (strip : Bool) :
    image.bodyPatch row name ⟨.ofNat rva, if strip then #[] else code⟩ =
      .ok (emptied strip place code) := by
  simp only [bodyPatch, hcell, hbody, ok_bind, hrva, if_false]
  cases strip with
  | false => simp [emptied, pure, Except.pure]
  | true =>
    by_cases hcode : code = #[]
    · simp [emptied, hcode, pure, Except.pure]
    · simp [emptied, hcode, pure, Except.pure]

/-- The body of a method row is one. -/
theorem HasBody.unique {place place' : Body} {code code' : Bytes}
    (h : image.HasBody row place code) (h' : image.HasBody row place' code') :
    place = place' ∧ code = code' := by
  obtain ⟨rva, implFlags, hrva, -, -, -, hbody⟩ := h
  obtain ⟨rva', implFlags', hrva', -, -, -, hbody'⟩ := h'
  cases hrva.symm.trans hrva'
  cases hbody.symm.trans hbody'
  exact ⟨rfl, rfl⟩

/-- A method that was perhaps stripped, field by field. -/
theorem strippedIf_mk (token : Option UInt32) (name : String) (access : Access)
    (attributes implAttributes : UInt16) (returnType : String) (body : Option MethodBody)
    (strip : Bool) :
    MethodDecl.strippedIf strip
        ⟨token, name, access, attributes, implAttributes, returnType, body⟩ =
      ⟨token, name, access, attributes, implAttributes, returnType,
        body.map fun b => ⟨b.rva, if strip then #[] else b.code⟩⟩ := by
  cases strip <;> cases body <;> rfl

/-- A method with another access is written into the low bits of its flag cell, and its body is
emptied if it lost code. -/
theorem methodPatches_access (hread : Image.read data = .ok image) (hrow : row < 0x1000000)
    {method : MethodDecl} (h : image.methodDecl row = .ok method) (access : Access)
    (strip : Bool) :
    ∃ flagChange bodyChange,
      image.methodPatches (MethodDecl.strippedIf strip { method with access }) =
        .ok (flagChange :: bodyChange.toList) ∧
      image.SetsLow flagChange Table.methodDef row 2 access.bits ∧
      ∀ change, bodyChange = some change ↔
        ∃ place code, image.HasBody row place code ∧ emptied strip place code = some change := by
  obtain ⟨rva, implFlags, flags, name, signature, blob, -, returnType, body, hrva, himpl,
    hflags, -, -, -, -, -, hbody, rfl⟩ := methodDecl_eq_ok_iff.1 h
  obtain ⟨offset, hcell, hsets⟩ := setsLow_memberFlags hread (by decide) rfl hflags access
  have htoken := tokenCell_token (by decide) hrow hcell
  rw [methodBody_eq_ok_iff] at hbody
  -- a body that is not managed was not read, and none is written
  split at hbody
  · next hmanaged =>
    obtain ⟨place, code, hat, rfl⟩ := hbody
    have hhas : image.HasBody row place code := ⟨rva, implFlags, hrva, himpl, hmanaged.1,
      hmanaged.2, hat⟩
    have hpatch := bodyPatch_strippedIf hrva hmanaged.1 hat name strip
    refine ⟨_, emptied strip place code, ?_, hsets, fun change => ⟨fun hchange =>
      ⟨place, code, hhas, hchange⟩, ?_⟩⟩
    · rw [strippedIf_mk]
      simp only [methodPatches, htoken, ok_bind, Option.map_some, hpatch]
      rfl
    · rintro ⟨place', code', hhas', hchange⟩
      obtain ⟨rfl, rfl⟩ := hhas.unique hhas'
      exact hchange
  · next hunmanaged =>
    subst hbody
    refine ⟨_, none, ?_, hsets, fun change => ⟨nofun, ?_⟩⟩
    · rw [strippedIf_mk]
      simp only [methodPatches, htoken, ok_bind, Option.map_none]
      rfl
    · rintro ⟨place, code, ⟨rva', implFlags', hrva', himpl', hne, hmanaged, -⟩, -⟩
      cases hrva.symm.trans hrva'
      cases himpl.symm.trans himpl'
      exact absurd ⟨hne, hmanaged⟩ hunmanaged

/-- A method that was made public is written into the low bits of its flag cell, and its body is
emptied if it lost code. -/
theorem methodPatches_publicized (hread : Image.read data = .ok image) (hrow : row < 0x1000000)
    (strip : Bool) {method : MethodDecl} (h : image.methodDecl row = .ok method) :
    ∃ flagChange bodyChange,
      image.methodPatches (method.promote.strippedIf strip) =
        .ok (flagChange :: bodyChange.toList) ∧
      image.SetsLow flagChange Table.methodDef row 2 6 ∧
      ∀ change, bodyChange = some change ↔
        ∃ place code, image.HasBody row place code ∧ emptied strip place code = some change :=
  methodPatches_access hread hrow h .publicMember strip

/-! ### Types -/

/-- What it takes to read a type. -/
theorem typeDecl_eq_ok_iff {members : Membership} {accessors : Array Accessors}
    {decl : TypeDecl} :
    image.typeDecl members accessors row = .ok decl ↔ ∃ flags name space fields methods,
      image.cell Table.typeDef row 0 = .ok flags ∧
      image.cellString Table.typeDef row 1 = .ok name ∧
      image.cellString Table.typeDef row 2 = .ok space ∧
      (members.fieldRange row).rows.mapM image.fieldDecl = .ok fields ∧
      (members.methodRange row).rows.mapM image.methodDecl = .ok methods ∧
      decl = {
        token := some (token Table.typeDef row)
        name
        namespaceName := space
        visibility := .ofFlags flags
        attributes := typeAttributes flags
        methods
        fields
        properties := (members.properties.getD row []).map fun property =>
          let found := accessors.getD property.row .empty
          ⟨property.name, found.getter, found.setter⟩
        events := (members.events.getD row []).map OwnedRow.name } := by
  simp only [typeDecl, bind_eq_ok_iff, pure_eq_ok_iff, eq_comm (b := decl)]
  constructor
  · rintro ⟨flags, h₁, name, h₂, space, h₃, fields, h₄, methods, h₅, rfl⟩
    exact ⟨flags, name, space, fields, methods, h₁, h₂, h₃, h₄, h₅, rfl⟩
  · rintro ⟨flags, name, space, fields, methods, h₁, h₂, h₃, h₄, h₅, rfl⟩
    exact ⟨flags, h₁, name, h₂, space, h₃, fields, h₄, methods, h₅, rfl⟩

/-- The low bits that are written for a type row and its members: into which cell, and which. -/
inductive RowBits (image : Image) (members : Membership) (guard : Guard) (nested : Bool)
    (type : Nat) : (table row column bits : Nat) → Prop where
  /-- The type becomes public where it stands. -/
  | type : RowBits image members guard nested type Table.typeDef type 0 (if nested then 2 else 1)
  /-- Its fields become public unless the guard keeps them. -/
  | field {row : Nat} {decl : FieldDecl} (hrow : row ∈ (members.fieldRange type).rows)
    (hdecl : image.fieldDecl row = .ok decl) :
    RowBits image members guard nested type Table.field row 0 (decl.publicized guard).access.bits
  /-- Its methods become public. -/
  | method {row : Nat} (hrow : row ∈ (members.methodRange type).rows) :
    RowBits image members guard nested type Table.methodDef row 2 6

/-- The change empties the body of a method of a type row. -/
def EmptiesBody (image : Image) (members : Membership) (strip : Bool) (type : Nat)
    (change : Patch) : Prop :=
  ∃ row ∈ (members.methodRange type).rows, ∃ place code, image.HasBody row place code ∧
    emptied strip place code = some change

/-- The fields of a type row are written one after another, each into the low bits of its flag word. -/
theorem exists_fieldChanges (hread : Image.read data = .ok image) {members : Membership}
    {type : Nat} {fields : List FieldDecl} (hrows : ∀ row ∈ (members.fieldRange type).rows,
      row < 0x1000000) (guard : Guard)
    (hfields : (members.fieldRange type).rows.mapM image.fieldDecl = .ok fields) :
    ∃ changes, fields.mapM (fun field => image.fieldPatch (field.publicized guard)) = .ok changes ∧
      (∀ change ∈ changes, ∃ row ∈ (members.fieldRange type).rows, ∃ decl,
        image.fieldDecl row = .ok decl ∧
          image.SetsLow change Table.field row 0 (decl.publicized guard).access.bits) ∧
      ∀ row ∈ (members.fieldRange type).rows, ∃ change ∈ changes, ∃ decl,
        image.fieldDecl row = .ok decl ∧
          image.SetsLow change Table.field row 0 (decl.publicized guard).access.bits :=
  exists_mapM_of_mapM (fun field => image.fieldPatch (field.publicized guard))
    (fun row change => ∃ decl, image.fieldDecl row = .ok decl ∧
      image.SetsLow change Table.field row 0 (decl.publicized guard).access.bits)
    hfields fun row hrow field hdecl => by
      obtain ⟨change, hchange, hlow⟩ := fieldPatch_publicized hread (hrows row hrow) guard hdecl
      exact ⟨change, hchange, field, hdecl, hlow⟩

/-- The methods of a type row are written one after another: each has a change of its flag word, and the
bodies that lost code are emptied. -/
theorem exists_methodChanges {members : Membership} {type : Nat} {methods : List MethodDecl}
    (hmethods : (members.methodRange type).rows.mapM image.methodDecl = .ok methods)
    (edit : MethodDecl → MethodDecl) (strip : Bool) (flagged : Nat → Patch → Prop)
    (hwrite : ∀ row ∈ (members.methodRange type).rows, ∀ method,
      image.methodDecl row = .ok method → ∃ flagChange bodyChange,
        image.methodPatches (edit method) = .ok (flagChange :: bodyChange.toList) ∧
        flagged row flagChange ∧ ∀ change, bodyChange = some change ↔
          ∃ place code, image.HasBody row place code ∧ emptied strip place code = some change) :
    ∃ changes, methods.mapM (fun method => image.methodPatches (edit method)) = .ok changes ∧
      (∀ change ∈ changes.flatten,
        (∃ row ∈ (members.methodRange type).rows, flagged row change) ∨
        EmptiesBody image members strip type change) ∧
      (∀ row ∈ (members.methodRange type).rows, ∃ change ∈ changes.flatten, flagged row change) ∧
      ∀ change, EmptiesBody image members strip type change → change ∈ changes.flatten := by
  obtain ⟨changes, hchanges, hfrom, hto⟩ :=
    exists_mapM_of_mapM (fun method => image.methodPatches (edit method))
      (fun row changes => ∃ flagChange bodyChange, changes = flagChange :: bodyChange.toList ∧
        flagged row flagChange ∧
        ∀ change, bodyChange = some change ↔ ∃ place code, image.HasBody row place code ∧
          emptied strip place code = some change)
      hmethods fun row hrow method hread => by
        obtain ⟨flagChange, bodyChange, hchanges, hflagged, hbody⟩ := hwrite row hrow method hread
        exact ⟨_, hchanges, flagChange, bodyChange, rfl, hflagged, hbody⟩
  -- of the changes of a row, the first one is of its flag word, and there is a second one if the
  -- body lost code
  refine ⟨changes, hchanges, fun change hchange => ?_, fun row hrow => ?_, ?_⟩
  · obtain ⟨here, hhere, hchange⟩ := List.mem_flatten.1 hchange
    obtain ⟨row, hrow, flagChange, bodyChange, rfl, hflagged, hbody⟩ := hfrom here hhere
    rcases List.mem_cons.1 hchange with rfl | hchange
    · exact .inl ⟨row, hrow, hflagged⟩
    · exact .inr ⟨row, hrow, (hbody change).1 (Option.mem_toList.1 hchange)⟩
  · obtain ⟨here, hhere, flagChange, bodyChange, rfl, hflagged, -⟩ := hto row hrow
    exact ⟨flagChange, List.mem_flatten_of_mem hhere List.mem_cons_self, hflagged⟩
  · rintro change ⟨row, hrow, hempties⟩
    obtain ⟨here, hhere, flagChange, bodyChange, rfl, -, hbody⟩ := hto row hrow
    exact List.mem_flatten_of_mem hhere
      (List.mem_cons_of_mem _ (Option.mem_toList.2 ((hbody change).2 hempties)))

/-- A type that was made public with its members is written into the low bits of their flag cells,
and the bodies that lost code are emptied. -/
theorem typePatches_publicized (hread : Image.read data = .ok image) {members : Membership}
    {accessors : Array Accessors} {type : Nat} (htype : type < 0x1000000)
    (hfields : ∀ row ∈ (members.fieldRange type).rows, row < 0x1000000)
    (hmethods : ∀ row ∈ (members.methodRange type).rows, row < 0x1000000)
    (guard : Guard) (nested strip : Bool) {decl : TypeDecl}
    (h : image.typeDecl members accessors type = .ok decl) :
    ∃ changes, image.typePatches ((decl.publicized guard nested).strippedIf strip) = .ok changes ∧
      (∀ change ∈ changes,
        (∃ table row column bits, RowBits image members guard nested type table row column bits ∧
          image.SetsLow change table row column bits) ∨
        EmptiesBody image members strip type change) ∧
      (∀ table row column bits, RowBits image members guard nested type table row column bits →
        ∃ change ∈ changes, image.SetsLow change table row column bits) ∧
      ∀ change, EmptiesBody image members strip type change → change ∈ changes := by
  obtain ⟨flags, name, space, fields, methods, hflags, -, -, hfield, hmethod, rfl⟩ :=
    typeDecl_eq_ok_iff.1 h
  obtain ⟨offset, hcell, hsets⟩ := setsLow_typeFlags hread hflags
    (if nested then .nestedPublic else .publicType)
  have hlow : Visibility.bits (if nested then .nestedPublic else .publicType) =
      if nested then 2 else 1 := by
    cases nested <;> rfl
  rw [hlow] at hsets
  obtain ⟨fieldChanges, hfieldChanges, hfromField, htoField⟩ :=
    exists_fieldChanges hread hfields guard hfield
  obtain ⟨methodChanges, hmethodChanges, hfromMethod, htoFlags, htoBody⟩ :=
    exists_methodChanges hmethod (fun method => method.promote.strippedIf strip) strip
      (fun row change => image.SetsLow change Table.methodDef row 2 6)
      fun row hrow method hread' => methodPatches_publicized hread (hmethods row hrow) strip hread'
  refine ⟨.typeFlags offset (typeFlags (typeAttributes flags)
    (if nested then .nestedPublic else .publicType)) :: (fieldChanges ++ methodChanges.flatten),
    ?_, ?_, ?_, ?_⟩
  · simp only [typePatches, TypeDecl.strippedIf, TypeDecl.publicized, tokenCell_token (by decide)
      htype hcell, ok_bind, List.mapM_map, List.map_map, Function.comp_def, hfieldChanges,
      hmethodChanges]
    rfl
  · -- every change is that of the type, of a field or of a method
    intro change hchange
    rw [List.mem_cons, List.mem_append] at hchange
    rcases hchange with rfl | hchange | hchange
    · exact .inl ⟨_, _, _, _, .type, hsets⟩
    · obtain ⟨row, hrow, decl, hdecl, hlow⟩ := hfromField change hchange
      exact .inl ⟨_, _, _, _, .field hrow hdecl, hlow⟩
    · rcases hfromMethod change hchange with ⟨row, hrow, hlow⟩ | hempties
      · exact .inl ⟨_, _, _, _, .method hrow, hlow⟩
      · exact .inr hempties
  · -- and every flag word has its change
    intro table row column bits hbits
    cases hbits with
    | type => exact ⟨_, List.mem_cons_self, hsets⟩
    | field hrow hdecl =>
      obtain ⟨change, hchange, decl, hdecl', hlow⟩ := htoField _ hrow
      cases hdecl.symm.trans hdecl'
      exact ⟨change, List.mem_cons_of_mem _ (List.mem_append_left _ hchange), hlow⟩
    | method hrow =>
      obtain ⟨change, hchange, hlow⟩ := htoFlags _ hrow
      exact ⟨change, List.mem_cons_of_mem _ (List.mem_append_right _ hchange), hlow⟩
  · intro change hempties
    exact List.mem_cons_of_mem _ (List.mem_append_right _ (htoBody change hempties))

end Members

end PublicAssembly.Image
