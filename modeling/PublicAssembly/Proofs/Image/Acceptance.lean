import PublicAssembly.Proofs.Image.Frame
import PublicAssembly.Proofs.Image.Reconstruction
import PublicAssembly.Proofs.Promotion.Orders

/-!
# Which modules can be written back

Writing back a module fails for two reasons alone: something in it has no row of the image, or a
method has code that the image does not have. Every other module is written, into places that lie in
the file. A module that was loaded can therefore be written however often it was promoted and
stripped, over ids in any order.

## Main definitions

* `Image.NamesRow`: a token names a row of a table;
* `Image.AcceptsBody`: the image takes the body of a method in a row;
* `Image.Accepts`: the image takes a module;
* `Module.ReworkedTo`: promotions and strippings lead from one module to another.

## Main statements

* `exists_typePatches_iff`: which types can be written;
* `Loads.accepts`: a loaded module can be written;
* `exists_patch_iff`: which modules can be written.
-/

namespace PublicAssembly

open Metadata (Table TableHeader Layout columns)
open Reading

/-- Promotions and strippings lead from the module to another one. -/
inductive Module.ReworkedTo (m : Module) : Module → Prop where
  /-- Nothing is done. -/
  | refl : m.ReworkedTo m
  /-- Types of some ids are promoted. -/
  | promote {n : Module} (h : m.ReworkedTo n) (order : List Nat) (guard : Guard) :
    m.ReworkedTo (n.promote order guard).module
  /-- Types of some ids are stripped. -/
  | strip {n : Module} (h : m.ReworkedTo n) (order : List Nat) :
    m.ReworkedTo (n.strip order).module

namespace Image

/-- There is a token, its upper byte is the number of the table, and its other bytes are the number of
a row of the table. -/
def NamesRow (image : Image) (table : Table) (token : Option UInt32) (row : Nat) : Prop :=
  ∃ t, token = some t ∧ t.toNat / 0x1000000 = table ∧ t.toNat % 0x1000000 = row ∧
    1 ≤ row ∧ row ≤ image.rows table

/-- The image takes the body of a method in a row: it has no address for the row, and there is no
code, or it has a body there, and the code is the same or empty. An address of 0 is none. -/
def AcceptsBody (image : Image) (row : Nat) (body : MethodBody) : Prop :=
  ∃ rva, image.cell Table.methodDef row 0 = .ok rva ∧
    (rva = 0 ∧ body.code = #[] ∨
      rva ≠ 0 ∧ ∃ place code, image.bodyAt rva = .ok (place, code) ∧
        (body.code = #[] ∨ body.code = code))

/-- The image takes a type with its members. -/
structure AcceptsType (image : Image) (decl : TypeDecl) : Prop where
  /-- The type has a row. -/
  type : ∃ row, image.NamesRow Table.typeDef decl.token row
  /-- Each field has a row. -/
  fields : ∀ field ∈ decl.fields, ∃ row, image.NamesRow Table.field field.token row
  /-- Each method has a row, for which the image takes its body. -/
  methods : ∀ method ∈ decl.methods, ∃ row, image.NamesRow Table.methodDef method.token row ∧
    ∀ body, method.body = some body → image.AcceptsBody row body

/-- The image takes all types of a module. -/
def Accepts (image : Image) (m : Module) : Prop :=
  ∀ decl ∈ m.types, image.AcceptsType decl

section Acceptance

variable {data : Bytes} {image : Image}

/-! ### What can be written, part by part -/

/-- What it takes for a token to belong to a table. -/
theorem tokenRow_eq_ok_iff {token : UInt32} {table row : Nat} :
    tokenRow token table = .ok row ↔
      token.toNat / 0x1000000 = table ∧ token.toNat % 0x1000000 = row := by
  rw [tokenRow, ite_ok_error_eq_ok_iff, Nat.shiftRight_eq_div_pow, Nat.one_shiftLeft]

/-- The cell of a token is found exactly if the token names a row. -/
theorem exists_tokenCell_iff (hread : Image.read data = .ok image) {table column row : Nat}
    (htable : table < Table.count) (hcolumn : column < (columns table).length) {token : UInt32} :
    (∃ offset, image.tokenCell token table column = .ok (row, offset)) ↔
      image.NamesRow table (some token) row := by
  simp only [tokenCell_eq_ok_iff, tokenRow_eq_ok_iff, NamesRow, Option.some.injEq, exists_eq_left']
  constructor
  · rintro ⟨offset, ⟨htoken, hrow⟩, width, hcell⟩
    have hbounds : row ≠ 0 ∧ row ≤ image.rows table := Layout.row_of_cell hcell
    exact ⟨htoken, hrow, Nat.one_le_iff_ne_zero.2 hbounds.1, hbounds.2⟩
  · rintro ⟨htoken, hrow, hpos, hle⟩
    -- every row of the table has a cell in every column
    obtain ⟨-, -, header, hlayout, -⟩ := layout_of_read hread
    rw [rows, Metadata.rows, hlayout] at hle
    obtain ⟨offset, hcell⟩ := TableHeader.exists_cell htable (Nat.one_le_iff_ne_zero.1 hpos) hle
      (List.getElem?_eq_getElem hcolumn)
    exact ⟨offset, ⟨htoken, hrow⟩, _, hlayout ▸ hcell⟩

/-- A field can be written if it has a row. -/
theorem exists_fieldPatch_iff (hread : Image.read data = .ok image) {field : FieldDecl} :
    (∃ change, image.fieldPatch field = .ok change) ↔
      ∃ row, image.NamesRow Table.field field.token row := by
  rw [fieldPatch]
  cases field.token with
  | none => simp [NamesRow]
  | some token =>
    simp only [bind_eq_ok_iff, pure_eq_ok_iff, Prod.exists,
      ← exists_tokenCell_iff hread (show Table.field < Table.count by decide)
        (show 0 < (columns Table.field).length by decide)]
    constructor
    · rintro ⟨_, row, offset, hcell, -⟩
      exact ⟨row, offset, hcell⟩
    · rintro ⟨row, offset, hcell⟩
      exact ⟨_, row, offset, hcell, rfl⟩

/-- The code of a method can be written if the image takes it. -/
theorem exists_bodyPatch_iff {row : Nat} (name : String) {body : MethodBody} :
    (∃ change, image.bodyPatch row name body = .ok change) ↔ image.AcceptsBody row body := by
  simp only [bodyPatch_eq_ok_iff]
  constructor
  · rintro ⟨change, rva, hrva, ⟨hzero, hempty, -⟩ | ⟨hne, place, code, hat, hcode⟩⟩
    · exact ⟨rva, hrva, .inl ⟨hzero, hempty⟩⟩
    · refine ⟨rva, hrva, .inr ⟨hne, place, code, hat, ?_⟩⟩
      rcases hcode with ⟨hsame, -⟩ | ⟨-, hempty, -⟩
      · exact .inr hsame.symm
      · exact .inl hempty
  · rintro ⟨rva, hrva, ⟨hzero, hempty⟩ | ⟨hne, place, code, hat, hcode⟩⟩
    · exact ⟨none, rva, hrva, .inl ⟨hzero, hempty, rfl⟩⟩
    · -- code that is the same is left alone, even if it is empty
      by_cases hsame : code = body.code
      · exact ⟨none, rva, hrva, .inr ⟨hne, place, code, hat, .inl ⟨hsame, rfl⟩⟩⟩
      · have hempty := hcode.resolve_right (Ne.symm hsame)
        exact ⟨_, rva, hrva, .inr ⟨hne, place, code, hat, .inr ⟨hsame, hempty, rfl⟩⟩⟩

/-- A method can be written if it has a row, and the image takes its body. -/
theorem exists_methodPatches_iff (hread : Image.read data = .ok image) {method : MethodDecl} :
    (∃ changes, image.methodPatches method = .ok changes) ↔
      ∃ row, image.NamesRow Table.methodDef method.token row ∧
        ∀ body, method.body = some body → image.AcceptsBody row body := by
  rw [methodPatches]
  cases method.token with
  | none => simp [NamesRow]
  | some token =>
    simp only [bind_eq_ok_iff, Prod.exists,
      ← exists_tokenCell_iff hread (show Table.methodDef < Table.count by decide)
        (show 2 < (columns Table.methodDef).length by decide)]
    cases method.body with
    | none =>
      constructor
      · rintro ⟨_, row, offset, hcell, -⟩
        exact ⟨row, ⟨offset, hcell⟩, nofun⟩
      · rintro ⟨row, ⟨offset, hcell⟩, -⟩
        exact ⟨_, row, offset, hcell, rfl⟩
    | some body =>
      simp only [bind_eq_ok_iff, pure_eq_ok_iff, Option.some.injEq, forall_eq',
        ← exists_bodyPatch_iff method.name]
      constructor
      · rintro ⟨_, row, offset, hcell, change, hchange, -⟩
        exact ⟨row, ⟨offset, hcell⟩, change, hchange⟩
      · rintro ⟨row, ⟨offset, hcell⟩, change, hchange⟩
        exact ⟨_, row, offset, hcell, change, hchange, rfl⟩

/-- A type can be written if it has a row, and its members can be written. -/
theorem exists_typePatches_iff (hread : Image.read data = .ok image) {decl : TypeDecl} :
    (∃ changes, image.typePatches decl = .ok changes) ↔ image.AcceptsType decl := by
  -- each list of members can be written if each of its members can
  have hfields : (∃ changes, decl.fields.mapM image.fieldPatch = .ok changes) ↔
      ∀ field ∈ decl.fields, ∃ row, image.NamesRow Table.field field.token row := by
    simp only [exists_mapM_eq_ok_iff, exists_fieldPatch_iff hread]
  have hmethods : (∃ changes, decl.methods.mapM image.methodPatches = .ok changes) ↔
      ∀ method ∈ decl.methods, ∃ row, image.NamesRow Table.methodDef method.token row ∧
        ∀ body, method.body = some body → image.AcceptsBody row body := by
    simp only [exists_mapM_eq_ok_iff, exists_methodPatches_iff hread]
  have htoken {token : UInt32} : (∃ row offset,
      image.tokenCell token Table.typeDef 0 = .ok (row, offset)) ↔
        ∃ row, image.NamesRow Table.typeDef (some token) row :=
    exists_congr fun row => exists_tokenCell_iff hread (by decide) (by decide)
  rw [typePatches]
  constructor
  · rintro ⟨changes, hchanges⟩
    split at hchanges
    · cases hchanges
    · next token hsome =>
      simp only [bind_eq_ok_iff, Prod.exists] at hchanges
      obtain ⟨row, offset, hcell, fields, hfield, methods, hmethod, -⟩ := hchanges
      exact ⟨hsome ▸ htoken.1 ⟨row, offset, hcell⟩, hfields.1 ⟨fields, hfield⟩,
        hmethods.1 ⟨methods, hmethod⟩⟩
  · rintro ⟨htype, hfield, hmethod⟩
    obtain ⟨fields, hfields⟩ := hfields.2 hfield
    obtain ⟨methods, hmethods⟩ := hmethods.2 hmethod
    cases hsome : decl.token with
    | none =>
      rw [hsome] at htype
      obtain ⟨_, _, hnone, -⟩ := htype
      cases hnone
    | some token =>
      rw [hsome] at htype
      obtain ⟨row, offset, hcell⟩ := htoken.2 htype
      simp only [hcell, hfields, hmethods, ok_bind]
      exact ⟨_, rfl⟩

/-! ### What is loaded, promoted and stripped -/

/-- A token of a row that can have one names the row. -/
theorem namesRow_token {table row : Nat} (htable : table < 256) (hrow : row < 0x1000000)
    (hpos : row ≠ 0) (hle : row ≤ image.rows table) :
    image.NamesRow table (some (token table row)) row := by
  obtain ⟨hupper, hlower⟩ := tokenRow_eq_ok_iff.1 (tokenRow_token htable hrow)
  exact ⟨_, rfl, hupper, hlower, Nat.one_le_iff_ne_zero.2 hpos, hle⟩

/-- The image takes the body that was read from it, and takes it without its code. -/
theorem acceptsBody_of_methodBody {row rva implFlags : Nat} {body : MethodBody}
    (hrva : image.cell Table.methodDef row 0 = .ok rva)
    (h : image.methodBody rva implFlags = .ok (some body)) : image.AcceptsBody row body := by
  rw [methodBody_eq_ok_iff] at h
  split at h
  · next hmanaged =>
    obtain ⟨place, code, hat, hbody⟩ := h
    cases hbody
    exact ⟨rva, hrva, .inr ⟨hmanaged.1, place, code, hat, .inr rfl⟩⟩
  · cases h

/-- The image takes a body without its code if it takes the body. -/
theorem AcceptsBody.stripped {row : Nat} {body : MethodBody} (h : image.AcceptsBody row body) :
    image.AcceptsBody row body.stripped := by
  obtain ⟨rva, hrva, ⟨hzero, -⟩ | ⟨hne, place, code, hat, -⟩⟩ := h
  · exact ⟨rva, hrva, .inl ⟨hzero, rfl⟩⟩
  · exact ⟨rva, hrva, .inr ⟨hne, place, code, hat, .inl rfl⟩⟩

/-- The image takes the types that are read from it, if tokens can name all rows. -/
theorem acceptsType_of_typeDecl {members : Membership} {accessors : Array Accessors} {type : Nat}
    (htype : type < 0x1000000)
    (hfields : ∀ row ∈ (members.fieldRange type).rows, row < 0x1000000)
    (hmethods : ∀ row ∈ (members.methodRange type).rows, row < 0x1000000) {decl : TypeDecl}
    (h : image.typeDecl members accessors type = .ok decl) : image.AcceptsType decl := by
  obtain ⟨flags, name, space, fields, methods, hflags, -, -, hfield, hmethod, rfl⟩ :=
    typeDecl_eq_ok_iff.1 h
  -- what was read from a row has the token of the row
  refine ⟨⟨type, ?_⟩, fun field hmem => ?_, fun method hmem => ?_⟩
  · obtain ⟨hpos, hle⟩ := row_of_cell hflags
    exact namesRow_token (by decide) htype hpos hle
  · obtain ⟨row, hrow, hdecl⟩ := (mem_mapM_iff hfield).1 hmem
    obtain ⟨_, _, _, hcell, -, -, rfl⟩ := fieldDecl_eq_ok_iff.1 hdecl
    obtain ⟨hpos, hle⟩ := row_of_cell hcell
    exact ⟨row, namesRow_token (by decide) (hfields row hrow) hpos hle⟩
  · obtain ⟨row, hrow, hdecl⟩ := (mem_mapM_iff hmethod).1 hmem
    obtain ⟨rva, implFlags, _, _, _, _, _, _, body, hrva, -, -, -, -, -, -, -, hbody, rfl⟩ :=
      methodDecl_eq_ok_iff.1 hdecl
    obtain ⟨hpos, hle⟩ := row_of_cell hrva
    refine ⟨row, namesRow_token (by decide) (hmethods row hrow) hpos hle, fun found hfound => ?_⟩
    exact acceptsBody_of_methodBody hrva (hbody.trans (congrArg Except.ok hfound))

/-- The image takes a module that was loaded from it, if tokens can name all rows. -/
theorem Loads.accepts {m : Module} {name : String} {members : Membership} {enclosing : Enclosing}
    {decls : List (Tree TypeDecl)} (h : Loads data m image name members enclosing decls)
    (hfits : image.FitsTokens) : image.Accepts m := by
  intro decl hdecl
  obtain ⟨content, hdecls, hcontent⟩ := h.exists_content
  rw [← Array.mem_toList_iff, h.types_eq hdecls rfl, List.mem_map] at hdecl
  obtain ⟨type, htype, rfl⟩ := hdecl
  replace htype := h.perm_rows.mem_iff.1 htype
  obtain ⟨read, hread⟩ := h.exists_typeDecl htype
  obtain ⟨hfields, hmethods⟩ := runs_of_membership h.members_eq
  have hbound := List.mem_range'_1.1 htype
  have htypes := hfits.types
  rw [hcontent type read hread]
  have haccepts := acceptsType_of_typeDecl (by omega)
    (fun row hrow => Nat.lt_of_le_of_lt (hfields.row_le htype hrow).2 hfits.fields)
    (fun row hrow => Nat.lt_of_le_of_lt (hmethods.row_le htype hrow).2 hfits.methods) hread
  -- the links of a type are not written
  exact ⟨haccepts.type, haccepts.fields, haccepts.methods⟩

/-- The image takes a module after every promotion and stripping if it takes it before. -/
theorem Accepts.of_reworkedTo {m n : Module} (hmodule : image.Accepts m) (h : m.ReworkedTo n) :
    image.Accepts n := by
  -- the image looks at the tokens and at the code of methods alone
  have hpromote {method : MethodDecl}
      (hmethod : ∃ row, image.NamesRow Table.methodDef method.token row ∧
        ∀ body, method.body = some body → image.AcceptsBody row body) :
      ∃ row, image.NamesRow Table.methodDef method.promote.token row ∧
        ∀ body, method.promote.body = some body → image.AcceptsBody row body := hmethod
  induction h with
  | refl => exact hmodule
  | promote _ order guard ih =>
    refine Module.forall_types_promote (fun decl visibility hdecl => ⟨hdecl.type, hdecl.fields,
      hdecl.methods⟩) (fun decl hdecl => ⟨hdecl.type, hdecl.fields, ?_⟩)
      (fun decl place hdecl => ⟨hdecl.type, hdecl.fields, ?_⟩) guard
      (fun decl hdecl => ⟨hdecl.type, ?_, hdecl.methods⟩) order ih
    · exact List.forall_mem_map.2 fun method hmethod => hpromote (hdecl.methods method hmethod)
    · intro method hmethod
      obtain ⟨i, hi⟩ := List.mem_iff_getElem?.1 hmethod
      rw [List.getElem?_modify, Option.map_eq_map, Option.map_eq_some_iff] at hi
      obtain ⟨old, hold, rfl⟩ := hi
      have hdecl' := hdecl.methods old (List.mem_of_getElem? hold)
      split
      · exact hpromote hdecl'
      · exact hdecl'
    · refine List.forall_mem_map.2 fun field hfield => ?_
      rw [FieldDecl.publicized]
      split <;> exact hdecl.fields field hfield
  | strip _ order ih =>
    refine Module.forall_types_strip (fun decl hdecl => ⟨hdecl.type, hdecl.fields, ?_⟩) order ih
    refine List.forall_mem_map.2 fun method hmethod => ?_
    obtain ⟨row, hrow, hbody⟩ := hdecl.methods method hmethod
    refine ⟨row, hrow, fun body hsome => ?_⟩
    obtain ⟨old, hold, rfl⟩ := Option.map_eq_some_iff.1 hsome
    exact (hbody old hold).stripped

/-! ### The whole module -/

/-- The changes of a module can be collected if the image takes the module. -/
theorem exists_patches_iff (hread : Image.read data = .ok image) {m : Module} :
    (∃ changes, image.patches m = .ok changes) ↔ image.Accepts m := by
  simp only [patches, bind_eq_ok_iff, pure_eq_ok_iff]
  rw [exists_comm]
  simp only [exists_and_left, exists_eq', and_true, exists_mapM_eq_ok_iff,
    exists_typePatches_iff hread, Array.mem_toList_iff]
  rfl

/-- A change of a module puts no byte past the end of the file. -/
theorem Written.inside (hread : Image.read data = .ok image) {m : Module} {change : Patch}
    (h : Written image m change) : change.offset + change.bytes.length ≤ data.size := by
  cases h with
  | flags hnames hrow hcell =>
    obtain ⟨-, -, header, hlayout, hroom⟩ := layout_of_read hread
    rw [hlayout] at hcell
    exact Nat.le_trans (Metadata.cell_inside hcell).2 hroom
  | body hlost => exact hlost.headerOffset_lt hread

end Acceptance

/-- A module can be written into a file that holds an image exactly if each of its types, fields and
methods has a row of the image, and the image takes the bodies of its methods; no byte is then put past
the end of the file. So a module that was loaded can be written after any promotions and strippings, if
tokens can name all rows. -/
theorem exists_patch_iff {data : Bytes} {image : Image} (hread : Image.read data = .ok image) :
    (∀ m, (∃ out, patch m data = .ok out) ↔ image.Accepts m) ∧
      (∀ m changes, image.patches m = .ok changes →
        ∀ change ∈ changes, change.offset + change.bytes.length ≤ data.size) ∧
      ∀ m n, load data = .ok m → image.FitsTokens → m.ReworkedTo n →
        ∃ out, patch n data = .ok out := by
  have hpatch (m : Module) : (∃ out, patch m data = .ok out) ↔ image.Accepts m := by
    rw [← exists_patches_iff hread]
    constructor
    · rintro ⟨out, hout⟩
      obtain ⟨image', changes, hread', hchanges, -⟩ := patch_eq_ok_iff.1 hout
      cases hread.symm.trans hread'
      exact ⟨changes, hchanges⟩
    · rintro ⟨changes, hchanges⟩
      exact ⟨_, patch_eq_ok_iff.2 ⟨_, _, hread, hchanges, rfl⟩⟩
  refine ⟨hpatch, fun m changes hchanges change hchange => ?_, fun m n hload hfits hn => ?_⟩
  · exact (written_of_patches hread hchanges change hchange).inside hread
  · obtain ⟨image', name, members, enclosing, decls, h⟩ := load_eq_ok_iff.1 hload
    cases hread.symm.trans h.image_eq
    exact (hpatch n).2 ((h.accepts hfits).of_reworkedTo hn)

/-- The small image takes the edited module, refuses one with a type that has no row, and takes what it
holds after a promotion in another order and a stripping of one type. -/
theorem exists_patch_iff_smallImage :
    ∃ image m out, Image.read smallImage = .ok image ∧ image.Accepts clonedModule ∧
      ¬ image.Accepts (clonedModule.addRoot { name := "new", visibility := .publicType }) ∧
      load smallImage = .ok m ∧
      patch ((m.promote [1, 7, 0, 1] .none).module.strip [0]).module smallImage = .ok out := by
  obtain ⟨image, m, hread, hload, hfits⟩ := exists_load_smallImage
  obtain ⟨haccepts, -, hreworked⟩ := exists_patch_iff hread
  obtain ⟨out, -, hout, -⟩ := exists_patch_clonedModule
  obtain ⟨out', hout'⟩ := hreworked m _ hload hfits ((Module.ReworkedTo.refl.promote [1, 7, 0, 1]
    .none).strip [0])
  refine ⟨image, m, out', hread, (haccepts _).1 ⟨out, hout⟩, fun hnew => ?_, hload, hout'⟩
  obtain ⟨_, _, hnone, -⟩ := (hnew _ (Array.mem_push_self)).type
  cases hnone

end Image

end PublicAssembly
