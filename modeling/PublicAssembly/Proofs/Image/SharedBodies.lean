import PublicAssembly.Proofs.Image.Acceptance
import PublicAssembly.Proofs.Image.Reloading
import PublicAssembly.Proofs.Image.Unedited

/-!
# Methods that share a body

Two methods may have the same address, and then one body of the file is the body of both. What is
written for a stripped module is decided method by method, by a comparison with the file as it was.
So a body is emptied as soon as one of its methods has lost its code, and a method of a type that
was not stripped is read back without code if it shares its body with a method that was. The file is
read back as the module that was written exactly if no body is shared so.

## Main definitions

* `Image.codePlace?`: where the code of a method stands in the file;
* `Image.losesCode`: a method has its code where a method of a stripped type has its code;
* `Image.withoutCode`: the module without the code of all such methods;
* `Image.Strips`: changes that empty the bodies of the types of some rows.

## Main statements

* `Loads.module_strip`: the stripping of some types as an edit of all types;
* `Strips.bodyAt_of_emptied`, `Strips.bodyAt_of_not_emptied`: the bodies of the written file;
* `load_patch_strip`: what the written file is read as.
-/

namespace PublicAssembly

open Metadata (Table)
open Reading
open PublicAssembly.Tree (preorderAll mapAll mapNestedAll)

/-- The row that the token of a type names. -/
def TypeDecl.row (decl : TypeDecl) : Nat :=
  match decl.token with
  | some token => token.toNat % 0x1000000
  | none => 0

/-- The type with edited methods. -/
def TypeDecl.mapMethods (edit : MethodDecl → MethodDecl) (decl : TypeDecl) : TypeDecl :=
  { decl with methods := decl.methods.map edit }

/-- Modules with the same file are the same if they are with another one. -/
theorem Module.eq_of_withImage_eq {m n : Module} {image : Bytes} (himage : m.image = n.image)
    (h : m.withImage image = n.withImage image) : m = n := by
  cases m
  cases n
  simp_all [withImage]

namespace Image

/-- Where the body of a method stands in the file, if the method has code. -/
def codePlace? (image : Image) (method : MethodDecl) : Option Nat :=
  match method.body with
  | some body =>
    if body.code = #[] then none
    else match image.headers.offsetOf body.rva.toNat with
      | .ok offset => some offset
      | .error _ => none
  | none => none

/-- The code of a method stands where a method of a type of the given ids has its code. -/
def losesCode (image : Image) (m : Module) (order : List Nat) (method : MethodDecl) : Bool :=
  (image.codePlace? method).any fun place => order.any fun id => (m.get? id).any fun decl =>
    decl.methods.any fun other => image.codePlace? other = some place

/-- The module without the code of the methods that have it where a method of a type of the given
ids has its code. -/
def withoutCode (image : Image) (m : Module) (order : List Nat) : Module :=
  m.mapTypes (TypeDecl.mapMethods fun method => method.strippedIf (image.losesCode m order method))

/-- The change empties the body of a method of a picked type row. -/
def EmptiedOf (image : Image) (members : Membership) (pick : Nat → Bool) (change : Patch) : Prop :=
  ∃ type ∈ List.range' 1 (image.rows Table.typeDef),
    EmptiesBody image members (pick type) type change

/-- The changes keep flag words, and empty the bodies of the methods of the picked type rows. -/
structure Strips (image : Image) (members : Membership) (pick : Nat → Bool)
    (changes : List Patch) : Prop where
  /-- Every change keeps a flag word or empties a body. -/
  sound : ∀ change ∈ changes, image.KeepsFlags change ∨ EmptiedOf image members pick change
  /-- Every body that is to be emptied is. -/
  bodies : ∀ change, EmptiedOf image members pick change → change ∈ changes

/-- The row is that of a type of the given ids, when the types stand in the order of the trees. -/
def pickedRow (enclosing : Enclosing) (order : List Nat) (row : Nat) : Bool :=
  decide ((preorderAll enclosing.forest).idxOf row ∈ order)

section Stripping

variable {data : Bytes} {m : Module} {image : Image} {name : String} {members : Membership}
  {enclosing : Enclosing} {decls : List (Tree TypeDecl)} {pick : Nat → Bool}
  {changes : List Patch} {spans : List Span} {order : List Nat} {row : Nat}

/-! ### The stripped module, row by row -/

/-- The token of a type that was read from a row names the row. -/
theorem row_of_typeDecl {accessors : Array Accessors} (hrow : row < 0x1000000) {decl : TypeDecl}
    (h : image.typeDecl members accessors row = .ok decl) : decl.row = row := by
  obtain ⟨-, -, -, -, -, -, -, -, -, -, rfl⟩ := typeDecl_eq_ok_iff.1 h
  exact (tokenRow_eq_ok_iff.1 (tokenRow_token (show Table.typeDef < 256 by decide) hrow)).2

/-- A stripping of some types of a loaded module is an edit of all types. -/
theorem Loads.module_strip (h : Loads data m image name members enclosing decls)
    (hfits : image.FitsTokens) (order : List Nat) :
    (m.strip order).module =
      m.mapTypes fun decl => decl.strippedIf (pickedRow enclosing order decl.row) := by
  refine Module.module_sweep_eq_mapTypes fun id => ?_
  rw [← Module.strip, Module.get?_strip]
  obtain ⟨content, hdecls, hcontent⟩ := h.exists_content
  rw [h.get?_eq_map hdecls rfl]
  cases hid : (preorderAll enclosing.forest)[id]? with
  | none => rfl
  | some type =>
    have htype := h.perm_rows.mem_iff.1 (List.mem_of_getElem? hid)
    obtain ⟨decl, hdecl⟩ := h.exists_typeDecl htype
    have hbound := List.mem_range'_1.1 htype
    have hrow : (content type).row = type := by
      have htypes := hfits.types
      rw [hcontent type decl hdecl]
      exact row_of_typeDecl (by omega) hdecl
    -- the id of the type is the place of its row
    obtain ⟨hlt, hat⟩ := List.getElem?_eq_some_iff.1 hid
    have hplace : (preorderAll enclosing.forest).idxOf type = id := by
      rw [← hat, enclosing.nodup_preorderAll_forest.1.idxOf_getElem]
    have hpick : pickedRow enclosing order (content type).row = decide (id ∈ order) := by
      rw [hrow, pickedRow, hplace]
    rw [Option.map_some, Option.map_some, Option.map_some, ← hpick]
    rfl

/-- What the methods of the type of an id have, the methods in the rows of the type have. -/
theorem Loads.exists_method_iff (h : Loads data m image name members enclosing decls) {id : Nat}
    {P : MethodDecl → Prop} :
    (∃ decl, m.get? id = some decl ∧ ∃ method ∈ decl.methods, P method) ↔
      ∃ type, (preorderAll enclosing.forest)[id]? = some type ∧
        ∃ row ∈ (members.methodRange type).rows, ∃ method, image.methodDecl row = .ok method ∧
          P method := by
  obtain ⟨content, hdecls, hcontent⟩ := h.exists_content
  -- the methods of a type are those of its rows
  have hmethods {type : Nat} (htype : type ∈ preorderAll enclosing.forest) (method : MethodDecl) :
      method ∈ (content type).methods ↔
        ∃ row ∈ (members.methodRange type).rows, image.methodDecl row = .ok method := by
    obtain ⟨decl, hdecl⟩ := h.exists_typeDecl (h.perm_rows.mem_iff.1 htype)
    obtain ⟨_, _, _, _, methods, -, -, -, -, hmethod, rfl⟩ := typeDecl_eq_ok_iff.1 hdecl
    rw [hcontent type _ hdecl]
    exact mem_mapM_iff hmethod
  rw [h.get?_eq_map hdecls rfl]
  constructor
  · rintro ⟨decl, hdecl, method, hmem, hP⟩
    obtain ⟨type, hid, rfl⟩ := Option.map_eq_some_iff.1 hdecl
    obtain ⟨row, hrow, hmethod⟩ := (hmethods (List.mem_of_getElem? hid) method).1 hmem
    exact ⟨type, hid, row, hrow, method, hmethod, hP⟩
  · rintro ⟨type, hid, row, hrow, method, hmethod, hP⟩
    refine ⟨_, Option.map_eq_some_iff.2 ⟨type, hid, rfl⟩, method, ?_, hP⟩
    exact (hmethods (List.mem_of_getElem? hid) method).2 ⟨row, hrow, hmethod⟩

/-- What is written for a module some of whose types were stripped. -/
theorem Loads.exists_strips (h : Loads data m image name members enclosing decls)
    (hfits : image.FitsTokens) (order : List Nat) :
    ∃ changes, image.patches (m.strip order).module = .ok changes ∧
      Strips image members (pickedRow enclosing order) changes := by
  obtain ⟨written, hwritten, hfrom, hto⟩ := h.exists_patches hfits
    (fun _ decl => decl.strippedIf (pickedRow enclosing order decl.row)) (fun _ _ _ _ => rfl)
    (fun type changes =>
      (∀ change ∈ changes, image.KeepsFlags change ∨
        EmptiesBody image members (pickedRow enclosing order type) type change) ∧
      ∀ change, EmptiesBody image members (pickedRow enclosing order type) type change →
        change ∈ changes)
    fun type htype hfields hmethods decl hdecl => by
      rw [row_of_typeDecl htype hdecl]
      exact typePatches_strippedIf h.image_eq htype hfields hmethods _ hdecl
  -- the types of the module are those of the rows, each stripped if its id is among the given ones
  rw [h.module_strip hfits]
  refine ⟨written.flatten, hwritten, fun change hchange => ?_, ?_⟩
  · obtain ⟨changes, hchanges, hmem⟩ := List.mem_flatten.1 hchange
    obtain ⟨type, htype, hsound, -⟩ := hfrom changes hchanges
    rcases hsound change hmem with hkeeps | hempties
    · exact .inl hkeeps
    · exact .inr ⟨type, htype, hempties⟩
  · rintro change ⟨type, htype, hempties⟩
    obtain ⟨changes, hchanges, -, hbodies⟩ := hto type htype
    exact List.mem_flatten_of_mem hchanges (hbodies change hempties)

/-! ### The written file -/

/-- A body that is emptied for some types is emptied when all are stripped. -/
theorem EmptiedOf.emptied {change : Patch} (h : EmptiedOf image members pick change) :
    Emptied image members true change := by
  obtain ⟨type, htype, row, hrow, place, code, hbody, hempty⟩ := h
  obtain ⟨-, hcode, hchange⟩ := emptied_eq_some_iff.1 hempty
  exact ⟨type, htype, row, hrow, place, code, hbody, emptied_eq_some_iff.2 ⟨rfl, hcode, hchange⟩⟩

/-- A body that is emptied had code. -/
theorem EmptiedOf.code_ne (hmembers : image.membership = .ok members) {place : Body} {code : Bytes}
    (hbody : image.HasBody row place code)
    (h : EmptiedOf image members pick (.emptyBody place.headerOffset)) : code ≠ #[] := by
  obtain ⟨-, row', place', code', -, hbody', hcode, heq⟩ := h.emptied.exists_body hmembers
  have hplace : place.headerOffset = place'.headerOffset := Patch.emptyBody.inj heq
  -- a body is read at its place alone
  have hread := hbody.read_eq
  rw [hplace, hbody'.read_eq] at hread
  cases hread
  exact hcode

namespace Strips

/-- A byte stays unless a body is emptied there. -/
theorem getElem?_of_not_emptied (hchanges : Strips image members pick changes)
    (hread : Image.read data = .ok image) {i : Nat}
    (hi : ∀ change, EmptiedOf image members pick change → ¬ change.Covers i) :
    (applyAll data changes)[i]? = data[i]? := by
  rcases Nat.lt_or_ge i data.size with hlt | hge
  · refine getElem?_applyAll hlt (fun change hchange hcovers => ?_) (.inr rfl)
    rcases hchanges.sound change hchange with hkeeps | hempty
    · exact hkeeps.restores hread i hcovers
    · exact absurd hcovers (hi change hempty)
  · rw [Array.getElem?_eq_none hge, Array.getElem?_eq_none (by rwa [size_applyAll])]

/-- The first byte of a body that is emptied becomes the header of a body without code. -/
theorem getElem?_of_emptied (hchanges : Strips image members pick changes)
    (h : Loads data m image name members enclosing decls) (hseparate : image.Separate spans true)
    {offset : Nat} (hempty : EmptiedOf image members pick (.emptyBody offset)) :
    (applyAll data changes)[offset]? = some Body.emptyHeader := by
  obtain ⟨-, row, place, code, -, hbody, -, heq⟩ := hempty.emptied.exists_body h.members_eq
  obtain rfl : offset = place.headerOffset := Patch.emptyBody.inj heq
  have hroom := (Body.header_of_read hbody.read_eq).2.2
  rw [(layout_of_read h.image_eq).1] at hroom
  refine getElem?_applyAll hroom (fun change hchange hcovers => ?_)
    (.inl ⟨_, hchanges.bodies _ hempty, covers_emptyBody_iff.2 rfl⟩)
  rcases hchanges.sound change hchange with hkeeps | hother
  · -- no body begins in a flag word
    obtain ⟨table, row', column, flags, -, hsets⟩ := hkeeps
    obtain ⟨width, hcell⟩ := hsets.exists_cell
    obtain ⟨-, -, -, hcovered⟩ := hsets.covers_iff hcell
    exact absurd (covers_emptyBody_iff.2 rfl) (Publishes.not_covers_cell hseparate h hcell
      ((hcovered _).1 hcovers) hempty.emptied)
  · obtain ⟨-, place', -, -, rfl⟩ := hother.emptied.exists_of_covers h.members_eq hcovers
    simp [Patch.bytes, Patch.offset]

/-- The file is read as the same image with other contents. -/
theorem read_applyAll (hchanges : Strips image members pick changes)
    (h : Loads data m image name members enclosing decls) (hspans : parts data = .ok spans)
    (hseparate : image.Separate spans true) :
    Image.read (applyAll data changes) = .ok (image.withData (applyAll data changes)) := by
  obtain ⟨others, hothers, hagain⟩ := exists_parts h.image_eq
  cases hspans.symm.trans hothers
  refine hagain _ (size_applyAll data changes).symm fun span hspan i hle hlt => ?_
  refine (hchanges.getElem?_of_not_emptied h.image_eq fun change hempty hcovers => ?_).symm
  obtain ⟨-, place, hplace, rfl, -⟩ := hempty.emptied.exists_of_covers h.members_eq hcovers
  exact Span.apart_iff.1 (hseparate.headers_parts rfl place hplace span hspan) _
    ⟨Nat.le_refl _, Nat.lt_succ_self _⟩ ⟨hle, hlt⟩

/-- All cells are the same. -/
theorem cell_eq (hchanges : Strips image members pick changes)
    (h : Loads data m image name members enclosing decls) (hseparate : image.Separate spans true)
    (table row column : Nat) :
    (image.withData (applyAll data changes)).cell table row column =
      image.cell table row column := by
  refine cell_withData h.image_eq (size_applyAll data changes) fun offset width hcell i hle hlt => ?_
  exact (hchanges.getElem?_of_not_emptied h.image_eq fun change hempty =>
    Publishes.not_covers_cell hseparate h hcell ⟨hle, hlt⟩ hempty.emptied).symm

/-- The image of the file is like that of the old file. -/
theorem alike (hchanges : Strips image members pick changes)
    (h : Loads data m image name members enclosing decls)
    (hseparate : image.Separate spans true) :
    Alike image (image.withData (applyAll data changes)) where
  headers_eq := rfl
  layout_eq := rfl
  strings_eq := rfl
  blobs_eq := rfl
  cell_eq _ row := hchanges.cell_eq h hseparate _ row _

/-- A body that is emptied has no code afterwards. -/
theorem bodyAt_of_emptied (hchanges : Strips image members pick changes)
    (h : Loads data m image name members enclosing decls) (hseparate : image.Separate spans true)
    {rva : Nat} {place : Body} {code : Bytes} (hat : image.bodyAt rva = .ok (place, code))
    (hempty : EmptiedOf image members pick (.emptyBody place.headerOffset)) :
    ∃ place', (image.withData (applyAll data changes)).bodyAt rva = .ok (place', #[]) := by
  obtain ⟨offset, haddress, hread⟩ := bodyAt_eq_ok_iff.1 hat
  rw [(Body.header_of_read hread).1] at hempty
  exact ⟨_, bodyAt_eq_ok_iff.2 ⟨offset, haddress,
    Body.read_emptyHeader (hchanges.getElem?_of_emptied h hseparate hempty)⟩⟩

/-- A body that is not emptied stays. -/
theorem bodyAt_of_not_emptied (hchanges : Strips image members pick changes)
    (h : Loads data m image name members enclosing decls) (hseparate : image.Separate spans true)
    (hrow : image.Owned 5 Table.methodDef row) {rva : Nat} {place : Body} {code : Bytes}
    (hbody : image.HasBody row place code) (hat : image.bodyAt rva = .ok (place, code))
    (hkept : ¬ EmptiedOf image members pick (.emptyBody place.headerOffset)) :
    (image.withData (applyAll data changes)).bodyAt rva = .ok (place, code) := by
  have hplace : place ∈ image.bodies := mem_bodies.2 ⟨row, hrow, code, hbody⟩
  obtain ⟨offset, haddress, hread⟩ := bodyAt_eq_ok_iff.1 hat
  rw [(layout_of_read h.image_eq).1] at hread
  refine bodyAt_eq_ok_iff.2 ⟨offset, haddress,
    Body.read_congr hread (size_applyAll data changes).symm fun i hle hlt => ?_⟩
  refine (hchanges.getElem?_of_not_emptied h.image_eq fun change hempty hcovers => ?_).symm
  -- what is emptied in the body begins where it does
  obtain ⟨-, other, hother, rfl, rfl⟩ := hempty.emptied.exists_of_covers h.members_eq hcovers
  rw [hseparate.headerOffset_eq hplace hother ⟨hle, hlt⟩] at hkept
  exact hkept hempty

end Strips

/-! ### Where code stands -/

/-- The code of a method that was read stands where the body of its row begins. -/
theorem codePlace?_eq_some_iff (hread : Image.read data = .ok image) {method : MethodDecl}
    (hmethod : image.methodDecl row = .ok method) {offset : Nat} :
    image.codePlace? method = some offset ↔
      ∃ place code, image.HasBody row place code ∧ code ≠ #[] ∧ place.headerOffset = offset := by
  obtain ⟨rva, implFlags, flags, name, signature, blob, access, returnType, body, hrva, himpl, -, -,
    -, -, -, -, hbody, rfl⟩ := methodDecl_eq_ok_iff.1 hmethod
  rw [methodBody_eq_ok_iff] at hbody
  split at hbody
  · next hmanaged =>
    obtain ⟨place, code, hat, rfl⟩ := hbody
    have hhas : image.HasBody row place code :=
      ⟨rva, implFlags, hrva, himpl, hmanaged.1, hmanaged.2, hat⟩
    obtain ⟨first, haddress, hplace⟩ := bodyAt_eq_ok_iff.1 hat
    have hfirst := (Body.header_of_read hplace).1
    -- a body that was read begins where the address of its row leads to
    simp only [codePlace?, toNat_rva hread hrva, haddress]
    constructor
    · intro hsome
      split at hsome
      · cases hsome
      · next hcode =>
        cases hsome
        exact ⟨place, code, hhas, hcode, hfirst⟩
    · rintro ⟨place', code', hhas', hcode, rfl⟩
      obtain ⟨rfl, rfl⟩ := hhas.unique hhas'
      rw [if_neg hcode, hfirst]
  · next hunmanaged =>
    -- a method without a body of its own has none in its row either
    subst hbody
    refine ⟨nofun, ?_⟩
    rintro ⟨place, code, ⟨rva', implFlags', hrva', himpl', hne, hmanaged, -⟩, -⟩
    cases hrva.symm.trans hrva'
    cases himpl.symm.trans himpl'
    exact absurd ⟨hne, hmanaged⟩ hunmanaged

/-- A method loses its code if its code stands where that of a method of a type of some ids does. -/
theorem losesCode_iff {method : MethodDecl} :
    image.losesCode m order method = true ↔ ∃ offset, image.codePlace? method = some offset ∧
      ∃ id ∈ order, ∃ decl, m.get? id = some decl ∧
        ∃ other ∈ decl.methods, image.codePlace? other = some offset := by
  simp only [losesCode, Option.any_eq_true, List.any_eq_true, decide_eq_true_eq]

/-- A method loses its code if its body is emptied for the types of the given ids. -/
theorem Loads.losesCode_iff_emptiedOf (h : Loads data m image name members enclosing decls)
    {method : MethodDecl} (hmethod : image.methodDecl row = .ok method) {place : Body}
    {code : Bytes} (hbody : image.HasBody row place code) :
    image.losesCode m order method = true ↔
      EmptiedOf image members (pickedRow enclosing order) (.emptyBody place.headerOffset) := by
  simp only [losesCode_iff, codePlace?_eq_some_iff h.image_eq hmethod, h.exists_method_iff]
  constructor
  · -- a method of one of the types has its code at the same place, so that its row empties it
    rintro ⟨_, ⟨place', code', hbody', -, rfl⟩, id, hid, type, htype, row', hrow', other, hother,
      hplace⟩
    obtain ⟨rfl, rfl⟩ := hbody.unique hbody'
    obtain ⟨first, code', hfirst, hcode, hsame⟩ :=
      (codePlace?_eq_some_iff h.image_eq hother).1 hplace
    refine ⟨type, h.perm_rows.mem_iff.1 (List.mem_of_getElem? htype), row', hrow', first, code',
      hfirst, emptied_eq_some_iff.2 ⟨decide_eq_true ?_, hcode, by rw [hsame]⟩⟩
    obtain ⟨hlt, rfl⟩ := List.getElem?_eq_some_iff.1 htype
    rwa [enclosing.nodup_preorderAll_forest.1.idxOf_getElem]
  · intro hempty
    -- the row by which the body is emptied belongs to one of the types
    have hcode := hempty.code_ne h.members_eq hbody
    obtain ⟨type, htype, row', hrow', first, code', hfirst, hempties⟩ := hempty
    obtain ⟨hpick, hcode', heq⟩ := emptied_eq_some_iff.1 hempties
    refine ⟨_, ⟨place, code, hbody, hcode, rfl⟩, _, of_decide_eq_true hpick, type, ?_, row', hrow', ?_⟩
    · refine h.getElem?_idxOf_row rfl ?_
      rwa [h.typeRows_eq]
    · obtain ⟨other, hother⟩ := h.exists_methodDecl htype hrow'
      exact ⟨other, hother, (codePlace?_eq_some_iff h.image_eq hother).2
        ⟨first, code', hfirst, hcode', (Patch.emptyBody.inj heq).symm⟩⟩

/-- A method whose code stands nowhere has none to lose. -/
theorem strip_of_codePlace?_eq_none (hread : Image.read data = .ok image) {method : MethodDecl}
    (hmethod : image.methodDecl row = .ok method) (hnone : image.codePlace? method = none) :
    method.strip = method := by
  have hnowhere {place : Body} {code : Bytes} (hbody : image.HasBody row place code) :
      code = #[] := by
    by_contra hcode
    have hsome := (codePlace?_eq_some_iff hread hmethod).2 ⟨place, code, hbody, hcode, rfl⟩
    rw [hnone] at hsome
    cases hsome
  -- so either there is no body or one without code
  obtain ⟨rva, implFlags, flags, name, signature, blob, access, returnType, body, hrva, himpl, -, -,
    -, -, -, -, hbody, rfl⟩ := methodDecl_eq_ok_iff.1 hmethod
  rw [methodBody_eq_ok_iff] at hbody
  split at hbody
  · next hmanaged =>
    obtain ⟨place, code, hat, rfl⟩ := hbody
    obtain rfl := hnowhere ⟨rva, implFlags, hrva, himpl, hmanaged.1, hmanaged.2, hat⟩
    rfl
  · subst hbody
    rfl

/-- A method that loses its code has some. -/
theorem strip_ne_of_losesCode {method : MethodDecl}
    (h : image.losesCode m order method = true) : method.strip ≠ method := by
  intro hsame
  obtain ⟨offset, hplace, -⟩ := losesCode_iff.1 h
  rw [← hsame, codePlace?, MethodDecl.strip] at hplace
  cases hbody : method.body with
  | none => simp [hbody] at hplace
  | some body => simp [hbody, MethodBody.stripped] at hplace

/-! ### The module that is read again -/

namespace Strips

/-- A method is read again without its code if its body was emptied, and as it was otherwise. -/
theorem methodDecl_applyAll (hchanges : Strips image members (pickedRow enclosing order) changes)
    (h : Loads data m image name members enclosing decls) (hseparate : image.Separate spans true)
    (hrow : image.Owned 5 Table.methodDef row) {method : MethodDecl}
    (hmethod : image.methodDecl row = .ok method) :
    (image.withData (applyAll data changes)).methodDecl row =
      .ok (method.strippedIf (image.losesCode m order method)) := by
  have halike := hchanges.alike h hseparate
  have hcells := hchanges.cell_eq h hseparate
  -- the row stays as it was; only its body is to be compared
  cases hloses : image.losesCode m order method with
  | true =>
    refine halike.methodDecl_eq hcells hmethod (fun rva implFlags hrva himpl hbody => ?_)
    rw [methodBody_eq_ok_iff] at hbody ⊢
    split at hbody
    · next hmanaged =>
      obtain ⟨place, code, hat, hsome⟩ := hbody
      have hhas : image.HasBody row place code :=
        ⟨rva, implFlags, hrva, himpl, hmanaged.1, hmanaged.2, hat⟩
      obtain ⟨place', hat'⟩ := hchanges.bodyAt_of_emptied h hseparate hat
        ((h.losesCode_iff_emptiedOf hmethod hhas).1 hloses)
      rw [if_pos hmanaged, hsome]
      exact ⟨place', #[], hat', rfl⟩
    · next hunmanaged => rw [if_neg hunmanaged, hbody, Option.map_none]
  | false =>
    refine halike.methodDecl_eq hcells hmethod (fun rva implFlags hrva himpl hbody => ?_)
    rw [methodBody_eq_ok_iff] at hbody ⊢
    split at hbody
    · next hmanaged =>
      obtain ⟨place, code, hat, hsome⟩ := hbody
      have hhas : image.HasBody row place code :=
        ⟨rva, implFlags, hrva, himpl, hmanaged.1, hmanaged.2, hat⟩
      have hkept : ¬ EmptiedOf image members (pickedRow enclosing order)
          (.emptyBody place.headerOffset) := by
        rw [← h.losesCode_iff_emptiedOf hmethod hhas, hloses]
        exact Bool.false_ne_true
      rw [if_pos hmanaged]
      exact ⟨place, code, hchanges.bodyAt_of_not_emptied h hseparate hrow hhas hat hkept, hsome⟩
    · next hunmanaged => rw [if_neg hunmanaged, hbody]

/-- Loading the written file goes through the same steps. It gives the module without the code of the
methods whose bodies were emptied. -/
theorem load_applyAll (hchanges : Strips image members (pickedRow enclosing order) changes)
    (h : Loads data m image name members enclosing decls) (hspans : parts data = .ok spans)
    (hseparate : image.Separate spans true) :
    load (applyAll data changes) =
      .ok ((image.withoutCode m order).withImage (applyAll data changes)) := by
  have halike := hchanges.alike h hseparate
  obtain ⟨-, hmethods⟩ := runs_of_membership h.members_eq
  exact load_eq_ok_iff.2 ⟨_, _, _, _, _, h.edited (hchanges.read_applyAll h hspans hseparate) halike
    (fun _ => TypeDecl.mapMethods fun method =>
      method.strippedIf (image.losesCode m order method)) (fun _ _ _ _ => rfl)
    fun type htype decl hdecl => halike.typeDecl_eq (hchanges.cell_eq h hseparate) hdecl
      fun row hrow method hmethod => hchanges.methodDecl_applyAll h hseparate
        ((hmethods.owned_iff row).2 ⟨type, htype, hrow⟩) hmethod⟩

end Strips

/-- The methods that lose their code are those of the stripped types exactly if no method of another
type has its code where a method of them has it. -/
theorem Loads.withoutCode_eq_strip_iff (h : Loads data m image name members enclosing decls)
    (order : List Nat) :
    image.withoutCode m order = (m.strip order).module ↔
      ∀ id decl, m.get? id = some decl → id ∉ order → ∀ method ∈ decl.methods,
        image.losesCode m order method = false := by
  have hget (id : Nat) : (image.withoutCode m order).get? id =
      (m.get? id).map (TypeDecl.mapMethods fun method =>
        method.strippedIf (image.losesCode m order method)) := Array.getElem?_map
  constructor
  · intro heq id decl hdecl hid method hmethod
    have hsame := hget id
    rw [heq, Module.get?_strip, hdecl, decide_eq_false hid, Option.map_some, Option.map_some,
      TypeDecl.strippedIf_false, Option.some.injEq] at hsame
    -- a method with code that it loses would differ
    have hmethods : decl.methods.map (fun method => method) = decl.methods.map fun method =>
        method.strippedIf (image.losesCode m order method) := by
      rw [List.map_id']
      exact congrArg TypeDecl.methods hsame
    have hkept := List.map_inj_left.1 hmethods method hmethod
    by_contra hloses
    rw [Bool.not_eq_false] at hloses
    rw [hloses] at hkept
    exact strip_ne_of_losesCode hloses hkept.symm
  · intro hkept
    refine (Module.module_sweep_eq_mapTypes fun id => ?_).symm
    rw [← Module.strip, Module.get?_strip]
    cases hdecl : m.get? id with
    | none => rfl
    | some decl =>
      rw [Option.map_some, Option.map_some, Option.some.injEq, TypeDecl.strippedIf]
      congr 1
      refine List.map_congr_left fun method hmethod => ?_
      by_cases hid : id ∈ order
      · -- a method of a stripped type has lost its code, or had none
        rw [decide_eq_true hid]
        cases hloses : image.losesCode m order method with
        | true => rfl
        | false =>
          obtain ⟨type, -, row, -, other, hother, rfl⟩ := (h.exists_method_iff (P := (· = method))).1
            ⟨decl, hdecl, method, hmethod, rfl⟩
          refine strip_of_codePlace?_eq_none h.image_eq hother
            (Option.eq_none_iff_forall_ne_some.2 fun place hplace => ?_)
          rw [losesCode_iff.2 ⟨place, hplace, id, hid, decl, hdecl, other, hmethod, hplace⟩] at hloses
          cases hloses
      · rw [decide_eq_false hid, hkept id decl hdecl hid method hmethod]

/-- The file of a loaded module some of whose types were stripped is read as the module without the
code of the methods whose bodies were emptied. -/
theorem Loads.exists_load_patch_strip (h : Loads data m image name members enclosing decls)
    (hfits : image.FitsTokens) (hspans : parts data = .ok spans)
    (hseparate : image.Separate spans true) (order : List Nat) :
    ∃ out, patch (m.strip order).module data = .ok out ∧
      load out = .ok ((image.withoutCode m order).withImage out) := by
  obtain ⟨changes, hpatches, hchanges⟩ := h.exists_strips hfits order
  exact ⟨applyAll data changes, patch_eq_ok_iff.2 ⟨_, _, h.image_eq, hpatches, rfl⟩,
    hchanges.load_applyAll h hspans hseparate⟩

end Stripping

/-- A loaded module can be written after a stripping of any of its types, if tokens name all rows and
the pieces of the image are apart but for bodies that begin at the same place. The file is then read
as the module in which every method has lost its code that has it where a method of a stripped type
has its code. That is the module that was written exactly if no method of another type has its code
there. -/
theorem load_patch_strip {data : Bytes} {m : Module} {image : Image} {spans : List Span}
    (hread : Image.read data = .ok image) (hload : load data = .ok m) (hfits : image.FitsTokens)
    (hspans : parts data = .ok spans) (hseparate : image.Separate spans true)
    (order : List Nat) :
    ∃ out, patch (m.strip order).module data = .ok out ∧
      load out = .ok ((image.withoutCode m order).withImage out) ∧
      (load out = .ok ((m.strip order).module.withImage out) ↔
        ∀ id decl, m.get? id = some decl → id ∉ order → ∀ method ∈ decl.methods,
          image.losesCode m order method = false) := by
  obtain ⟨image', name, members, enclosing, decls, h⟩ := load_eq_ok_iff.1 hload
  cases hread.symm.trans h.image_eq
  obtain ⟨out, hout, hagain⟩ := h.exists_load_patch_strip hfits hspans hseparate order
  refine ⟨out, hout, hagain, ?_⟩
  rw [hagain, Except.ok.injEq, ← h.withoutCode_eq_strip_iff order]
  -- both modules come from the same one, so they have the same file
  obtain ⟨-, -, -, himage⟩ := Module.sweep_frame TypeDecl.stripMethods order m
  constructor
  · intro hsame
    exact Module.eq_of_withImage_eq himage.symm hsame
  · intro hsame
    rw [hsame]

/-- The small image, but its second type has a method with the body of that of the first type. -/
def sharedImage : Bytes :=
  (smallImage.setIfInBounds 492 0x06).setIfInBounds 493 0x12

/-- What the methods of the type of an id have as code, or nothing for a method without a body. -/
def codeOf (m : Module) (id : Nat) : Option (List (Option Bytes)) :=
  (m.get? id).map fun decl => decl.methods.map fun method => method.body.map MethodBody.code

/-- When the first type of the image with a shared body is stripped, the module that is written has the
code of the method of the second type, and the module that is read from the file has not, although
nothing else of the image overlaps. -/
theorem not_kept_sharedImage :
    ∃ image m spans out again, Image.read sharedImage = .ok image ∧ load sharedImage = .ok m ∧
      image.FitsTokens ∧ parts sharedImage = .ok spans ∧ image.Separate spans true ∧
      patch (m.strip [0]).module sharedImage = .ok out ∧ load out = .ok again ∧
      codeOf (m.strip [0]).module 1 = some [some #[0x17, 0x2A]] ∧
      codeOf again 1 = some [some #[]] := by
  have htry : okAnd (fun image : Image => okAnd (fun m : Module => decide (
      (image.rows Table.typeDef < 0x1000000 ∧ image.rows Table.field < 0x1000000 ∧
        image.rows Table.methodDef < 0x1000000) ∧
      codeOf (m.strip [0]).module 1 = some [some #[0x17, 0x2A]] ∧
      codeOf (image.withoutCode m [0]) 1 = some [some #[]]))
      (load sharedImage)) (Image.read sharedImage) = true := by
    decide +kernel
  obtain ⟨image, hread, htests⟩ := okAnd_eq_true_iff.1 htry
  obtain ⟨m, hload, hholds⟩ := okAnd_eq_true_iff.1 htests
  obtain ⟨⟨htypes, hfields, hmethods⟩, hkept, hlost⟩ := of_decide_eq_true hholds
  have hfits : image.FitsTokens := ⟨htypes, hfields, hmethods⟩
  have hapart : isSeparate sharedImage = true := by decide +kernel
  obtain ⟨spans, hspans, hseparate⟩ := exists_separate hapart hread
  -- what the file says again is known for all separate images, so that it need not be evaluated
  obtain ⟨image', name, members, enclosing, decls, h⟩ := load_eq_ok_iff.1 hload
  cases hread.symm.trans h.image_eq
  obtain ⟨out, hout, hagain⟩ := h.exists_load_patch_strip hfits hspans hseparate [0]
  exact ⟨image, m, spans, out, _, hread, hload, hfits, hspans, hseparate, hout, hagain, hkept, hlost⟩

/-- The small image, where no body is shared, is stripped of the code of its first type and read again
as the module that was written. -/
theorem load_patch_strip_smallImage :
    ∃ m out, load smallImage = .ok m ∧ patch (m.strip [0, 7, 0]).module smallImage = .ok out ∧
      load out = .ok ((m.strip [0, 7, 0]).module.withImage out) := by
  obtain ⟨image, m, hread, hload, hfits⟩ := exists_load_smallImage
  obtain ⟨spans, hspans, hseparate⟩ := separate_smallImage hread
  obtain ⟨out, hout, -, hagain⟩ := load_patch_strip hread hload hfits hspans hseparate [0, 7, 0]
  -- the second type is the only other one, and its method has no code to lose
  have htry : okAnd (fun image : Image => okAnd (fun m : Module => decide (m.types.size = 2 ∧
      ∀ decl ∈ m.get? 1, ∀ method ∈ decl.methods, image.losesCode m [0, 7, 0] method = false))
      (load smallImage)) (Image.read smallImage) = true := by
    decide +kernel
  rw [hread, hload, okAnd, okAnd] at htry
  obtain ⟨hsize, hkept⟩ := of_decide_eq_true htry
  refine ⟨m, out, hload, hout, hagain.2 fun id decl hdecl hid method hmethod => ?_⟩
  have hlt : id < m.types.size := (Array.getElem?_eq_some_iff.1 hdecl).1
  have hne : id ≠ 0 := fun hzero => hid (hzero ▸ List.mem_cons_self)
  obtain rfl : id = 1 := by omega
  exact hkept decl hdecl method hmethod

end Image

end PublicAssembly
