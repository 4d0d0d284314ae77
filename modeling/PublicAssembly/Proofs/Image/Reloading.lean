import PublicAssembly.Proofs.Image.Promotion
import PublicAssembly.Proofs.Image.Rereading

/-!
# Loading what was written

Loading the file of a promoted module gives the promoted module: every type, field and method is
read as it was written, the members belong to the same types, and the types are nested in one
another as before. This needs an image whose pieces are apart.

## Main statements

* `Alike.fieldDecl_publicized`, `Alike.methodDecl_publicized`, `Alike.typeDecl_publicized`: what a
  row is read as when its flag word has other low bits;
* `Alike.methodDecl_eq`, `Alike.typeDecl_eq`: what a row is read as when bodies differ alone;
* `load_patch_prepare`: loading the written file gives the module that was written.
-/

namespace PublicAssembly

/-- A visibility is read back from a flag word that has its bits. -/
theorem Visibility.ofFlags_withLow (flags : Nat) (visibility : Visibility) :
    Visibility.ofFlags (withLow flags visibility.bits) = visibility := by
  rw [ofFlags, withLow_mod]
  exact ofFlags_bits visibility

/-- An access is read back from a flag word that has its bits. -/
theorem Access.ofFlags?_withLow (flags : Nat) (access : Access) :
    Access.ofFlags? (withLow flags access.bits) = some access := by
  rw [ofFlags?, withLow_mod]
  exact ofFlags?_bits access

namespace Image

open Metadata (Table)
open Reading
open PublicAssembly.Tree (preorderAll traverseAll mapNestedAll)

/-- The attributes of a member do not depend on the low bits of its flag word. -/
theorem memberAttributes_withLow (flags bits : Nat) :
    memberAttributes (withLow flags bits) = memberAttributes flags := by
  rw [memberAttributes, withLow_withLow, memberAttributes]

/-- The attributes of a type do not depend on the low bits of its flag word. -/
theorem typeAttributes_withLow (flags bits : Nat) :
    typeAttributes (withLow flags bits) = typeAttributes flags := by
  rw [typeAttributes, withLow_withLow, typeAttributes]

/-! ### Rows with other flag words -/

namespace Alike

variable {image other : Image} (h : Alike image other) {guard : Guard} {strip : Bool} {row : Nat}

include h

/-- A field whose flag word has the low bits of the promoted field is read as the promoted field. -/
theorem fieldDecl_publicized {field : FieldDecl} (hfield : image.fieldDecl row = .ok field)
    (hflags : ∀ flags, image.cell Table.field row 0 = .ok flags →
      other.cell Table.field row 0 = .ok (withLow flags (field.publicized guard).access.bits)) :
    other.fieldDecl row = .ok (field.publicized guard) := by
  obtain ⟨flags, name, access, hcell, hname, -, rfl⟩ := fieldDecl_eq_ok_iff.1 hfield
  have hcell' := hflags flags hcell
  rw [← h.cellString_eq (one_not_flag _)] at hname
  refine fieldDecl_eq_ok_iff.2 ⟨_, name, _, hcell', hname, Access.ofFlags?_withLow _ _, ?_⟩
  rw [memberAttributes_withLow, FieldDecl.publicized]
  split <;> rfl

/-- A method whose flag word has the low bits of public access, and whose body is the same or empty
if bodies are stripped, is read as the promoted method. -/
theorem methodDecl_publicized {method : MethodDecl} (hmethod : image.methodDecl row = .ok method)
    (hflags : ∀ flags, image.cell Table.methodDef row 2 = .ok flags →
      other.cell Table.methodDef row 2 = .ok (withLow flags 6))
    (hbody : ∀ rva place code, image.HasBody row place code → image.bodyAt rva = .ok (place, code) →
      ∃ place', other.bodyAt rva = .ok (place', if strip then #[] else code)) :
    other.methodDecl row = .ok (method.promote.strippedIf strip) := by
  obtain ⟨rva, implFlags, flags, name, signature, blob, access, returnType, body, hrva, himpl,
    hcell, hname, hsignature, hblob, -, hreturn, hread, rfl⟩ := methodDecl_eq_ok_iff.1 hmethod
  have hcell' := hflags flags hcell
  -- a body that is not managed is not read, neither before nor after
  have hread' : other.methodBody rva implFlags =
      .ok (body.map fun b => ⟨b.rva, if strip then #[] else b.code⟩) := by
    rw [methodBody_eq_ok_iff] at hread ⊢
    split at hread
    · next hmanaged =>
      obtain ⟨place, code, hat, rfl⟩ := hread
      obtain ⟨place', hat'⟩ := hbody rva place code
        ⟨rva, implFlags, hrva, himpl, hmanaged.1, hmanaged.2, hat⟩ hat
      rw [if_pos hmanaged]
      exact ⟨place', _, hat', rfl⟩
    · next hunmanaged =>
      rw [if_neg hunmanaged, hread, Option.map_none]
  rw [← h.cell_eq (by decide)] at hrva himpl hsignature
  rw [← h.cellString_eq (by decide)] at hname
  rw [← h.blob_eq] at hblob
  rw [← h.typeName_eq] at hreturn
  rw [MethodDecl.promote, strippedIf_mk]
  refine methodDecl_eq_ok_iff.2 ⟨rva, implFlags, withLow flags 6, name, signature, blob,
    .publicMember, returnType, _, hrva, himpl, hcell', hname, hsignature, hblob,
    Access.ofFlags?_withLow flags .publicMember, hreturn, hread', ?_⟩
  rw [memberAttributes_withLow]

/-- A type whose flag word has the low bits of the promoted type, and whose members are read as the
promoted members, is read as the promoted type. -/
theorem typeDecl_publicized {members : Membership} {accessors : Array Accessors} {nested : Bool}
    {decl : TypeDecl} (hdecl : image.typeDecl members accessors row = .ok decl)
    (hflags : ∀ flags, image.cell Table.typeDef row 0 = .ok flags →
      other.cell Table.typeDef row 0 = .ok (withLow flags (if nested then 2 else 1)))
    (hfields : ∀ field ∈ (members.fieldRange row).rows, ∀ d, image.fieldDecl field = .ok d →
      other.fieldDecl field = .ok (d.publicized guard))
    (hmethods : ∀ method ∈ (members.methodRange row).rows, ∀ d, image.methodDecl method = .ok d →
      other.methodDecl method = .ok (d.promote.strippedIf strip)) :
    other.typeDecl members accessors row =
      .ok ((decl.publicized guard nested).strippedIf strip) := by
  obtain ⟨flags, name, space, fields, methods, hcell, hname, hspace, hfield, hmethod, rfl⟩ :=
    typeDecl_eq_ok_iff.1 hdecl
  have hcell' := hflags flags hcell
  -- the low bits are those of the visibility that the type gets
  have hbits : (if nested then 2 else 1) =
      (if nested then Visibility.nestedPublic else Visibility.publicType).bits := by
    cases nested <;> rfl
  rw [← h.cellString_eq (by decide)] at hname hspace
  refine typeDecl_eq_ok_iff.2 ⟨_, name, space, fields.map (FieldDecl.publicized guard),
    methods.map fun d => d.promote.strippedIf strip, hcell', hname, hspace,
    mapM_eq_map_of_mapM hfield hfields, mapM_eq_map_of_mapM hmethod hmethods, ?_⟩
  rw [hbits, Visibility.ofFlags_withLow, typeAttributes_withLow, TypeDecl.strippedIf,
    TypeDecl.publicized, List.map_map]
  rfl

/-! ### Rows with the same flag words -/

section SameCells

variable (hcells : ∀ table row column, other.cell table row column = image.cell table row column)

include hcells

/-- A field is read alike if all cells are the same. -/
theorem fieldDecl_eq : other.fieldDecl row = image.fieldDecl row := by
  rw [fieldDecl, fieldDecl, hcells, h.cellString_eq (one_not_flag _)]

/-- A method is read alike, but with the body that is there, if all cells are the same. -/
theorem methodDecl_eq {method : MethodDecl} (hmethod : image.methodDecl row = .ok method)
    {body : Option MethodBody}
    (hbody : ∀ rva implFlags, image.cell Table.methodDef row 0 = .ok rva →
      image.cell Table.methodDef row 1 = .ok implFlags →
        image.methodBody rva implFlags = .ok method.body → other.methodBody rva implFlags = .ok body) :
    other.methodDecl row = .ok { method with body } := by
  obtain ⟨rva, implFlags, flags, name, signature, blob, access, returnType, old, hrva, himpl,
    hflags, hname, hsignature, hblob, haccess, hreturn, hread, rfl⟩ :=
    methodDecl_eq_ok_iff.1 hmethod
  have hread' := hbody rva implFlags hrva himpl hread
  rw [← hcells] at hrva himpl hflags hsignature
  rw [← h.cellString_eq (by decide)] at hname
  rw [← h.blob_eq] at hblob
  rw [← h.typeName_eq] at hreturn
  exact methodDecl_eq_ok_iff.2 ⟨rva, implFlags, flags, name, signature, blob, access, returnType,
    body, hrva, himpl, hflags, hname, hsignature, hblob, haccess, hreturn, hread', rfl⟩

/-- A type is read alike, but with the methods that are there, if all cells are the same. -/
theorem typeDecl_eq {members : Membership} {accessors : Array Accessors} {decl : TypeDecl}
    (hdecl : image.typeDecl members accessors row = .ok decl) {edit : MethodDecl → MethodDecl}
    (hmethods : ∀ method ∈ (members.methodRange row).rows, ∀ d, image.methodDecl method = .ok d →
      other.methodDecl method = .ok (edit d)) :
    other.typeDecl members accessors row =
      .ok { decl with methods := decl.methods.map edit } := by
  obtain ⟨flags, name, space, fields, methods, hflags, hname, hspace, hfield, hmethod, rfl⟩ :=
    typeDecl_eq_ok_iff.1 hdecl
  have hfield' : (members.fieldRange row).rows.mapM other.fieldDecl = .ok fields := by
    have hread : other.fieldDecl = image.fieldDecl := funext fun _ => h.fieldDecl_eq hcells
    rwa [hread]
  have hmethod' := mapM_eq_map_of_mapM hmethod hmethods
  rw [← hcells] at hflags
  rw [← h.cellString_eq (by decide)] at hname hspace
  exact typeDecl_eq_ok_iff.2 ⟨flags, name, space, fields, methods.map edit, hflags, hname, hspace,
    hfield', hmethod', rfl⟩

end SameCells

end Alike

/-! ### The promoted module -/

section Reloading

variable {data : Bytes} {m : Module} {image : Image} {name : String} {members : Membership}
  {enclosing : Enclosing} {decls : List (Tree TypeDecl)} {guard : Guard} {strip : Bool}
  {changes : List Patch} {spans : List Span}

/-- Loading another file with a like image goes through the same steps. If it reads every type row as
an edit of the type, it gives the edited module. -/
theorem Loads.edited (h : Loads data m image name members enclosing decls) {out : Bytes}
    {other : Image} (hread : Image.read out = .ok other) (halike : Alike image other)
    (edit : Bool → TypeDecl → TypeDecl)
    (hedit : ∀ nested decl parent ids,
      edit nested (decl.linked parent ids) = (edit nested decl).linked parent ids)
    (htypes : ∀ type ∈ List.range' 1 (image.rows Table.typeDef), ∀ decl,
      image.typeDecl members members.accessors type = .ok decl →
        other.typeDecl members members.accessors type =
          .ok (edit (enclosing.getD type none).isSome decl)) :
    Loads out ((m.mapTypes fun decl => edit decl.isNested decl).withImage out) other name members
      enclosing (mapNestedAll edit false decls) where
  image_eq := hread
  name_eq := halike.moduleName_eq.trans h.name_eq
  members_eq := halike.membership_eq.trans h.members_eq
  enclosing_eq := halike.enclosing_eq.trans h.enclosing_eq
  decls_eq := Tree.traverseAll_eq_mapNestedAll h.decls_eq
    (Enclosing.mapNestedAll_forest h.linksRows Prod.mk) fun type htype decl hdecl =>
      htypes type (h.perm_rows.mem_iff.1 htype) decl hdecl
  count_eq := by rw [Tree.count_mapNestedAll, h.count_eq, halike.rows_eq]
  module_eq := by
    rw [h.mapTypes_eq edit hedit]
    rfl

namespace Publishes

/-- A type row of the written file is read as the promoted type. -/
theorem typeDecl_applyAll (hchanges : Publishes image members enclosing guard strip changes)
    (h : Loads data m image name members enclosing decls) (hseparate : image.Separate spans strip)
    {type : Nat} (htype : type ∈ List.range' 1 (image.rows Table.typeDef)) {decl : TypeDecl}
    (hdecl : image.typeDecl members members.accessors type = .ok decl) :
    (image.withData (applyAll data changes)).typeDecl members members.accessors type =
      .ok ((decl.publicized guard (enclosing.getD type none).isSome).strippedIf strip) := by
  have halike := hchanges.alike_applyAll h hseparate
  refine halike.typeDecl_publicized hdecl (fun flags hflags => ?_)
    (fun field hfield d hd => halike.fieldDecl_publicized hd fun flags hflags => ?_)
    fun method hmethod d hd => halike.methodDecl_publicized hd (fun flags hflags => ?_)
      fun rva place code hbody hat => ?_
  · exact hchanges.cell_of_writtenBits h hseparate ⟨type, htype, .type⟩ hflags
  · exact hchanges.cell_of_writtenBits h hseparate ⟨type, htype, .field hfield hd⟩ hflags
  · exact hchanges.cell_of_writtenBits h hseparate ⟨type, htype, .method hmethod⟩ hflags
  · exact hchanges.bodyAt_of_hasBody h hseparate htype hmethod hbody hat

/-- Loading the written file goes through the same steps and gives the promoted trees. -/
theorem loads_applyAll (hchanges : Publishes image members enclosing guard strip changes)
    (h : Loads data m image name members enclosing decls) (hspans : parts data = .ok spans)
    (hseparate : image.Separate spans strip) :
    Loads (applyAll data changes)
      ((m.mapTypes fun decl =>
        (decl.publicized guard decl.isNested).strippedIf strip).withImage (applyAll data changes))
      (image.withData (applyAll data changes)) name members enclosing
      (mapNestedAll (fun nested decl => (decl.publicized guard nested).strippedIf strip) false
        decls) :=
  h.edited (hchanges.read_applyAll h hspans hseparate) (hchanges.alike_applyAll h hseparate)
    (fun nested decl => (decl.publicized guard nested).strippedIf strip) (fun _ _ _ _ => rfl)
    fun _ htype _ hdecl => hchanges.typeDecl_applyAll h hseparate htype hdecl

end Publishes

end Reloading

/-- Loading the file of a promoted module gives the promoted module, whose file it is: when tokens
name all rows, and the pieces of the image are apart. -/
theorem load_patch_prepare {data : Bytes} {m : Module} {image : Image} {spans : List Span}
    (hread : Image.read data = .ok image) (hload : load data = .ok m) (hfits : image.FitsTokens)
    (settings : PromotionSettings) (hspans : parts data = .ok spans)
    (hseparate : image.Separate spans settings.stripBodies) :
    ∃ out, patch (Publication.prepare settings m).module data = .ok out ∧
      load out = .ok ((Publication.prepare settings m).module.withImage out) := by
  obtain ⟨image', name, members, enclosing, decls, h⟩ := load_eq_ok_iff.1 hload
  cases hread.symm.trans h.image_eq
  obtain ⟨changes, hpatches, hchanges⟩ := patches_prepare h hfits settings
  refine ⟨applyAll data changes, patch_eq_ok_iff.2 ⟨_, _, hread, hpatches, rfl⟩, ?_⟩
  rw [h.module_prepare settings]
  exact load_eq_ok_iff.2 ⟨_, _, _, _, _, hchanges.loads_applyAll h hspans hseparate⟩

/-- The file holds an image whose pieces are apart, even when its bodies are emptied. -/
def isSeparate (data : Bytes) : Bool :=
  okAnd (fun image : Image => okAnd (fun spans : List Span => decide (
    (∀ flag ∈ image.flagSpans, ∀ part ∈ spans, flag.Apart part) ∧
    (∀ body ∈ image.bodies, ∀ part ∈ spans, (⟨body.headerOffset, 1⟩ : Span).Apart part) ∧
    (∀ body ∈ image.bodies, ∀ table ∈ image.tableSpans, body.span.Apart table) ∧
    ∀ body ∈ image.bodies, ∀ other ∈ image.bodies,
      body.headerOffset = other.headerOffset ∨ body.span.Apart other.span))
    (parts data)) (Image.read data)

/-- The pieces of an image that was tried out are apart. -/
theorem exists_separate {data : Bytes} (h : isSeparate data = true) {image : Image}
    (hread : Image.read data = .ok image) :
    ∃ spans, parts data = .ok spans ∧ image.Separate spans true := by
  rw [isSeparate, hread, okAnd] at h
  obtain ⟨spans, hspans, hapart⟩ := okAnd_eq_true_iff.1 h
  obtain ⟨hflags, hheaders, htables, hbodies⟩ := of_decide_eq_true hapart
  exact ⟨spans, hspans, hflags, fun _ => hheaders, htables, hbodies⟩

/-- The pieces of the small image are apart, even when its body is emptied. -/
theorem separate_smallImage {image : Image} (hread : Image.read smallImage = .ok image) :
    ∃ spans, parts smallImage = .ok spans ∧ image.Separate spans true :=
  exists_separate (by decide +kernel) hread

/-- The small image is written back public and without code, and loaded again. -/
theorem load_patch_prepare_smallImage :
    ∃ m out, load smallImage = .ok m ∧
      patch (Publication.prepare { stripBodies := true } m).module smallImage = .ok out ∧
      load out = .ok ((Publication.prepare { stripBodies := true } m).module.withImage out) := by
  obtain ⟨image, m, himage, hm, hfits⟩ := exists_load_smallImage
  obtain ⟨spans, hspans, hseparate⟩ := separate_smallImage himage
  obtain ⟨out, hout, hload⟩ :=
    load_patch_prepare himage hm hfits { stripBodies := true } hspans hseparate
  exact ⟨m, out, hm, hout, hload⟩

end Image

end PublicAssembly
