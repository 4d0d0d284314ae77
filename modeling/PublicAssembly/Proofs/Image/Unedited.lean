import PublicAssembly.Proofs.Image.Promotion

/-!
# Modules that are written back unedited

Writing a module back overwrites a flag cell for every type, field and method. When the module is as
it was loaded, every change puts back the bytes that are there (`Patch.Restores`). Such changes may
cover each other's places, so nothing is asked of where the parts of the file lie. When code was taken
from it, bodies are emptied as well.

## Main definitions

* `Patch.Restores`: a change that puts back the bytes of the file;
* `Image.KeepsFlags`: a change that gives a flag word the low bits that it has.

## Main statements

* `applyAll_of_restores`: changes that put back what is there leave the file as it is;
* `typePatches_strippedIf`: what is written for a type that was loaded and perhaps stripped;
* `patch_load`: a module that was loaded is written back into the same file.
-/

namespace PublicAssembly.Image

open Metadata (Table)
open Reading

/-! ### Changes that put back what is there -/

/-- The change puts back the bytes of the file. -/
def Patch.Restores (data : Bytes) (change : Patch) : Prop :=
  ∀ i, change.Covers i → change.bytes[i - change.offset]? = data[i]?

/-- Changes that put back what is there leave the file as it is. -/
theorem applyAll_of_restores {data : Bytes} {changes : List Patch}
    (h : ∀ change ∈ changes, change.Restores data) : applyAll data changes = data := by
  refine Array.ext_getElem? fun i => ?_
  rcases Nat.lt_or_ge i data.size with hi | hi
  · exact getElem?_applyAll hi (fun change hchange => h change hchange i) (.inr rfl)
  · rw [Array.getElem?_eq_none hi, Array.getElem?_eq_none (by rwa [size_applyAll])]

section Unedited

variable {data : Bytes} {image : Image} {row : Nat}

/-- The change gives a flag word the low bits that it has. -/
def KeepsFlags (image : Image) (change : Patch) : Prop :=
  ∃ table row column flags, image.cell table row column = .ok flags ∧
    image.SetsLow change table row column (flags % 8)

/-- A change that gives a flag word the low bits that it has puts back what is there. -/
theorem KeepsFlags.restores (hread : Image.read data = .ok image) {change : Patch}
    (h : image.KeepsFlags change) : change.Restores data := by
  obtain ⟨table, row, column, flags, hflags, hsets⟩ := h
  intro i hi
  rw [hsets.getElem?_bytes hi, (layout_of_read hread).2.1]
  by_cases hfirst : i = change.offset
  · rw [if_pos hfirst, hfirst]
    exact hsets.map_setLow_self hread hflags
  · rw [if_neg hfirst]

/-- A field that was loaded is written back as it is. -/
theorem fieldPatch_keepsFlags (hread : Image.read data = .ok image) (hrow : row < 0x1000000)
    {field : FieldDecl} (h : image.fieldDecl row = .ok field) :
    ∃ change, image.fieldPatch field = .ok change ∧ image.KeepsFlags change := by
  obtain ⟨change, hchange, hsets⟩ := fieldPatch_access hread hrow h field.access
  obtain ⟨flags, name, access, hflags, -, haccess, rfl⟩ := fieldDecl_eq_ok_iff.1 h
  rw [Access.bits_of_ofFlags? haccess] at hsets
  exact ⟨change, hchange, _, _, _, flags, hflags, hsets⟩

/-- A method that was loaded and perhaps stripped is written back with its flag word as it is, and its
body is emptied if it lost code. -/
theorem methodPatches_strippedIf (hread : Image.read data = .ok image) (hrow : row < 0x1000000)
    (strip : Bool) {method : MethodDecl} (h : image.methodDecl row = .ok method) :
    ∃ flagChange bodyChange,
      image.methodPatches (method.strippedIf strip) = .ok (flagChange :: bodyChange.toList) ∧
      image.KeepsFlags flagChange ∧
      ∀ change, bodyChange = some change ↔
        ∃ place code, image.HasBody row place code ∧ emptied strip place code = some change := by
  obtain ⟨flagChange, bodyChange, hchanges, hsets, hbody⟩ :=
    methodPatches_access hread hrow h method.access strip
  obtain ⟨rva, implFlags, flags, name, signature, blob, access, returnType, body, -, -, hflags, -,
    -, -, haccess, -, -, rfl⟩ := methodDecl_eq_ok_iff.1 h
  rw [Access.bits_of_ofFlags? haccess] at hsets
  exact ⟨flagChange, bodyChange, hchanges, ⟨_, _, _, flags, hflags, hsets⟩, hbody⟩

/-- A type that was loaded and perhaps stripped is written back with its flag words as they are, and
the bodies that lost code are emptied. -/
theorem typePatches_strippedIf (hread : Image.read data = .ok image) {members : Membership}
    {accessors : Array Accessors} {type : Nat} (htype : type < 0x1000000)
    (hfields : ∀ row ∈ (members.fieldRange type).rows, row < 0x1000000)
    (hmethods : ∀ row ∈ (members.methodRange type).rows, row < 0x1000000) (strip : Bool)
    {decl : TypeDecl} (h : image.typeDecl members accessors type = .ok decl) :
    ∃ changes, image.typePatches (decl.strippedIf strip) = .ok changes ∧
      (∀ change ∈ changes, image.KeepsFlags change ∨ EmptiesBody image members strip type change) ∧
      ∀ change, EmptiesBody image members strip type change → change ∈ changes := by
  obtain ⟨flags, name, space, fields, methods, hflags, -, -, hfield, hmethod, rfl⟩ :=
    typeDecl_eq_ok_iff.1 h
  obtain ⟨offset, hcell, hsets⟩ := setsLow_typeFlags hread hflags (.ofFlags flags)
  -- the bits that are written into the flag word are those that it has
  rw [Visibility.bits_ofFlags] at hsets
  obtain ⟨fieldChanges, hfieldChanges, hfromField, -⟩ :=
    exists_mapM_of_mapM image.fieldPatch (fun _ change => image.KeepsFlags change) hfield
      fun row hrow field hread' => fieldPatch_keepsFlags hread (hfields row hrow) hread'
  obtain ⟨methodChanges, hmethodChanges, hfromMethod, -, htoBody⟩ :=
    exists_methodChanges hmethod (MethodDecl.strippedIf strip) strip
      (fun _ change => image.KeepsFlags change)
      fun row hrow method hread' => methodPatches_strippedIf hread (hmethods row hrow) strip hread'
  refine ⟨.typeFlags offset (typeFlags (typeAttributes flags) (.ofFlags flags)) ::
    (fieldChanges ++ methodChanges.flatten), ?_, ?_, ?_⟩
  · simp only [typePatches, TypeDecl.strippedIf, tokenCell_token (by decide) htype hcell, ok_bind,
      List.mapM_map, Function.comp_def, hfieldChanges, hmethodChanges]
    rfl
  · intro change hchange
    rw [List.mem_cons, List.mem_append] at hchange
    rcases hchange with rfl | hchange | hchange
    · exact .inl ⟨_, _, _, flags, hflags, hsets⟩
    · obtain ⟨-, -, hkeeps⟩ := hfromField change hchange
      exact .inl hkeeps
    · rcases hfromMethod change hchange with ⟨_, -, hkeeps⟩ | hempties
      · exact .inl hkeeps
      · exact .inr hempties
  · intro change hempties
    exact List.mem_cons_of_mem _ (List.mem_append_right _ (htoBody change hempties))

/-- A body that keeps its code is not emptied. -/
theorem not_emptiesBody_false {members : Membership} {type : Nat} (change : Patch) :
    ¬ EmptiesBody image members false type change := by
  rintro ⟨row, -, place, code, -, hempty⟩
  exact Bool.false_ne_true (emptied_eq_some_iff.1 hempty).1

/-! ### The whole file -/

/-- A module that was loaded is written back by changes that put back what is there. -/
theorem patches_restores {m : Module} {name : String} {members : Membership}
    {enclosing : Enclosing} {decls : List (Tree TypeDecl)}
    (h : Loads data m image name members enclosing decls) (hfits : image.FitsTokens) :
    ∃ changes, image.patches m = .ok changes ∧ ∀ change ∈ changes, change.Restores data := by
  obtain ⟨written, hwritten, hfrom, -⟩ := h.exists_patches hfits (fun _ decl => decl)
    (fun _ _ _ _ => rfl) (fun _ changes => ∀ change ∈ changes, change.Restores data)
    fun type htype hfields hmethods decl hdecl => by
      obtain ⟨changes, hchanges, hsound, -⟩ :=
        typePatches_strippedIf h.image_eq htype hfields hmethods false hdecl
      rw [TypeDecl.strippedIf_false] at hchanges
      exact ⟨changes, hchanges, fun change hchange =>
        ((hsound change hchange).resolve_right (not_emptiesBody_false change)).restores h.image_eq⟩
  -- an edit that changes nothing, whose flag words are those of the file
  have hsame : (m.mapTypes fun decl => decl) = m := by
    rw [Module.mapTypes, Array.map_id']
  rw [hsame] at hwritten
  refine ⟨written.flatten, hwritten, fun change hchange => ?_⟩
  obtain ⟨changes, hchanges, hmem⟩ := List.mem_flatten.1 hchange
  obtain ⟨-, -, hrestores⟩ := hfrom changes hchanges
  exact hrestores change hmem

end Unedited

/-- A module that was loaded is written back into the same file, wherever the parts of the file
lie. -/
theorem patch_load {data : Bytes} {m : Module} {image : Image}
    (hread : Image.read data = .ok image) (hload : load data = .ok m) (hfits : image.FitsTokens) :
    patch m data = .ok data := by
  obtain ⟨image', name, members, enclosing, decls, h⟩ := load_eq_ok_iff.1 hload
  cases hread.symm.trans h.image_eq
  obtain ⟨changes, hpatches, hrestores⟩ := patches_restores h hfits
  exact patch_eq_ok_iff.2 ⟨image, changes, hread, hpatches, (applyAll_of_restores hrestores).symm⟩

/-- The small image with the code of its method in the flag word of its first type. -/
def overlappingImage : Bytes :=
  ((smallImage.setIfInBounds 444 0x0A).setIfInBounds 478 0xBC).setIfInBounds 479 0x11

/-- The image whose method has the flag word of its type as its code is written back as it is. -/
theorem patch_load_overlappingImage :
    ∃ m, load overlappingImage = .ok m ∧
      (m.get? 0).map (fun decl => decl.methods.map MethodDecl.body) =
        some [some ⟨0x11BC, #[1, 0]⟩] ∧
      patch m overlappingImage = .ok overlappingImage := by
  have htry : holdsModule (fun m => decide
      ((m.get? 0).map (fun decl => decl.methods.map MethodDecl.body) =
        some [some ⟨0x11BC, #[1, 0]⟩])) overlappingImage = true := by
    decide +kernel
  obtain ⟨image, m, himage, hm, hfits, hcode⟩ := exists_load htry
  exact ⟨m, hm, of_decide_eq_true hcode, patch_load himage hm hfits⟩

end PublicAssembly.Image
