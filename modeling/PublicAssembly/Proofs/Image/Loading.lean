import PublicAssembly.Image.Load
import PublicAssembly.Proofs.Image.Ranges
import PublicAssembly.Proofs.Image.Unfolding
import PublicAssembly.Proofs.Module.Arena

/-!
# What is loaded from an image

A module is loaded in steps, each of which reads part of the file. `Loads` names what the steps
give; everything else about a loaded module is read off it: the types of the module are the type
rows as the trees list them (`Loads.map_types`), and every member row is owned by one type at most.

## Main definitions

* `Image.Owned`: a row of a table belongs to some type by a list column;
* `Image.Loads`: what each step of the loading of a module gives.

## Main statements

* `load_eq_ok_iff`: what it takes to load a module;
* `Loads.perm_rows`: every type row becomes one type of the module;
* `Loads.map_types`: what is made of the types of the module is made of the type rows.
-/

namespace PublicAssembly.Image

open Metadata (Table)
open Reading
open PublicAssembly.Tree (preorderAll traverseAll mapAll mapNestedAll)

/-- Some type owns the row of the target table by a list column of the types. -/
def Owned (image : Image) (column : Nat) (target : Table) (row : Nat) : Prop :=
  ∃ ranges, image.listRanges Table.typeDef column target = .ok ranges ∧
    ∃ range ∈ ranges, range.Holds row

/-- What each step of the loading of a module from a file gives. -/
structure Loads (data : Bytes) (m : Module) (image : Image) (name : String) (members : Membership)
    (enclosing : Enclosing) (decls : List (Tree TypeDecl)) : Prop where
  /-- The file holds the image. -/
  image_eq : Image.read data = .ok image
  /-- The image gives the module its name. -/
  name_eq : image.moduleName = .ok name
  /-- The image says which rows are members of which type. -/
  members_eq : image.membership = .ok members
  /-- The image says which types are nested in which. -/
  enclosing_eq : image.enclosing = .ok enclosing
  /-- Every type row in the trees can be read. -/
  decls_eq : traverseAll (image.typeDecl members members.accessors) enclosing.forest = .ok decls
  /-- No type row is missing in the trees. -/
  count_eq : Tree.count decls = image.rows Table.typeDef
  /-- The module is that of the trees. -/
  module_eq : m = (Module.ofTrees name decls).withImage data

/-- What it takes to survey a file. -/
theorem survey_eq_ok_iff {data : Bytes} {image : Image} {name : String} {members : Membership} :
    survey data = .ok (image, name, members) ↔ Image.read data = .ok image ∧
      image.moduleName = .ok name ∧ image.membership = .ok members := by
  simp only [survey, bind_eq_ok_iff, pure_eq_ok_iff, Prod.mk.injEq]
  constructor
  · rintro ⟨_, himage, _, hname, _, hmembers, rfl, rfl, rfl⟩
    exact ⟨himage, hname, hmembers⟩
  · rintro ⟨himage, hname, hmembers⟩
    exact ⟨_, himage, _, hname, _, hmembers, rfl, rfl, rfl⟩

/-- What it takes to load a module from a file. -/
theorem load_eq_ok_iff {data : Bytes} {m : Module} :
    load data = .ok m ↔
      ∃ image name members enclosing decls,
        Loads data m image name members enclosing decls := by
  -- the types that are attached one by one are the trees that are read as a whole
  have hmodule {image : Image} {name : String} {members : Membership} :
      image.loadTypes name members = .ok m ↔ ∃ enclosing decls,
        image.enclosing = .ok enclosing ∧
        traverseAll (image.typeDecl members members.accessors) enclosing.forest = .ok decls ∧
        Tree.count decls = image.rows Table.typeDef ∧
        m = (Module.ofTrees name decls).withImage image.data := by
    simp only [loadTypes, bind_eq_ok_iff, throw_eq, error_bind, ite_error_eq_ok_iff,
      pure_eq_ok_iff, Module.attachTrees_empty_eq_ok_iff]
    constructor
    · rintro ⟨enclosing, henclosing, -, ⟨decls, hdecls, rfl⟩, hcount, rfl⟩
      rw [Module.size_ofTrees, not_not] at hcount
      exact ⟨enclosing, decls, henclosing, hdecls, hcount, rfl⟩
    · rintro ⟨enclosing, decls, henclosing, hdecls, hcount, rfl⟩
      exact ⟨enclosing, henclosing, _, ⟨decls, hdecls, rfl⟩, by simpa using hcount, rfl⟩
  simp only [load, survey_eq_ok_iff, bind_eq_ok_iff, Prod.exists]
  constructor
  · rintro ⟨image, name, members, ⟨himage, hname, hmembers⟩, hload⟩
    obtain ⟨enclosing, decls, henclosing, hdecls, hcount, hm⟩ := hmodule.1 hload
    rw [(layout_of_read himage).1] at hm
    exact ⟨_, _, _, enclosing, decls, himage, hname, hmembers, henclosing, hdecls, hcount, hm⟩
  · rintro ⟨image, name, members, enclosing, decls, h⟩
    refine ⟨image, name, members, ⟨h.image_eq, h.name_eq, h.members_eq⟩,
      hmodule.2 ⟨enclosing, decls, h.enclosing_eq, h.decls_eq, h.count_eq, ?_⟩⟩
    rw [(layout_of_read h.image_eq).1, h.module_eq]

section Loads

variable {data : Bytes} {m : Module} {image : Image} {name : String} {members : Membership}
  {enclosing : Enclosing} {decls : List (Tree TypeDecl)}

namespace Loads

/-! ### The types of the module -/

/-- The type rows are those from 1 to the number of rows. -/
theorem typeRows_eq (h : Loads data m image name members enclosing decls) :
    enclosing.typeRows = List.range' 1 (image.rows Table.typeDef) := by
  rw [Enclosing.typeRows, (enclosing_spec h.enclosing_eq).1, Nat.add_sub_cancel]

/-- Only type rows are nested, and only in type rows. -/
theorem linksRows (h : Loads data m image name members enclosing decls) : enclosing.LinksRows :=
  (enclosing_spec h.enclosing_eq).2.2

/-- Every type row becomes one type of the module. -/
theorem perm_rows (h : Loads data m image name members enclosing decls) :
    (preorderAll enclosing.forest).Perm (List.range' 1 (image.rows Table.typeDef)) := by
  have hlength := congrArg List.length (Tree.preorderAll_traverse h.decls_eq)
  rw [List.length_map, List.length_map] at hlength
  rw [← h.typeRows_eq]
  refine Enclosing.perm_forest ?_
  rw [hlength, h.typeRows_eq, List.length_range']
  exact h.count_eq

/-- Every type row can be read. -/
theorem exists_typeDecl (h : Loads data m image name members enclosing decls) {row : Nat}
    (hrow : row ∈ List.range' 1 (image.rows Table.typeDef)) :
    ∃ decl, image.typeDecl members members.accessors row = .ok decl := by
  have hmem := List.mem_map_of_mem (f := image.typeDecl members members.accessors)
    (h.perm_rows.mem_iff.2 hrow)
  rw [Tree.preorderAll_traverse h.decls_eq, List.mem_map] at hmem
  obtain ⟨decl, -, hdecl⟩ := hmem
  exact ⟨decl, hdecl.symm⟩

/-- A type row is nested where some nesting row names it. -/
theorem isSome_enclosing_iff (h : Loads data m image name members enclosing decls) (row : Nat) :
    (enclosing.getD row none).isSome ↔ image.NamesNested row :=
  (enclosing_spec h.enclosing_eq).2.1 row

/-- There are as many types as type rows. -/
theorem size_eq (h : Loads data m image name members enclosing decls) :
    m.size = image.rows Table.typeDef := by
  rw [h.module_eq, ← h.count_eq]
  exact Module.size_ofTrees name decls

/-- The types are listed in the order of their ids. -/
theorem flatten_eq (h : Loads data m image name members enclosing decls) :
    m.flatten = List.range (image.rows Table.typeDef) := by
  rw [h.module_eq, ← h.count_eq, ← Module.flatten_ofTrees name decls, Module.flatten_withImage]

/-- An edit of all types that leaves the links alone is an edit of the trees. -/
theorem mapTypes_eq (h : Loads data m image name members enclosing decls)
    (edit : Bool → TypeDecl → TypeDecl)
    (hedit : ∀ nested decl parent ids,
      edit nested (decl.linked parent ids) = (edit nested decl).linked parent ids) :
    m.mapTypes (fun decl => edit decl.isNested decl) =
      (Module.ofTrees name (mapNestedAll edit false decls)).withImage data := by
  rw [← Module.mapTypes_ofTrees hedit, h.module_eq]
  rfl

/-- What is made of the types of the module is made of the type rows, as the trees list them. -/
theorem map_types (h : Loads data m image name members enclosing decls) {β : Type}
    (content : Bool → TypeDecl → β) (made : Bool → Nat → β)
    (hcontent : ∀ nested decl parent ids,
      content nested (decl.linked parent ids) = content nested decl)
    (hmade : ∀ nested row decl, image.typeDecl members members.accessors row = .ok decl →
      content nested decl = made nested row) :
    m.types.toList.map (fun decl => content decl.isNested decl) =
      (preorderAll enclosing.forest).map fun row =>
        made (enclosing.getD row none).isSome row := by
  have htrees : mapNestedAll content false decls =
      mapAll (fun row => made (enclosing.getD row none).isSome row) enclosing.forest := by
    rw [← Enclosing.mapNestedAll_forest h.linksRows]
    exact Tree.mapNestedAll_traverse hmade h.decls_eq false
  rw [h.module_eq]
  change (Module.arena none 0 decls).map _ = _
  rw [Module.map_arena_nested hcontent, Option.isSome_none, htrees, Tree.preorderAll_mapAll]

end Loads

/-! ### The members of the types -/

/-- The runs of a list column of the types, found by the rows of the types. -/
def Runs (image : Image) (column : Nat) (target : Table) (rangeOf : Nat → RowRange) : Prop :=
  image.listRanges Table.typeDef column target =
    .ok ((List.range' 1 (image.rows Table.typeDef)).map rangeOf)

namespace Runs

variable {column : Nat} {target : Table} {rangeOf : Nat → RowRange}

/-- Runs that are kept in an array are found behind the place of their type. -/
theorem of_listRanges {ranges : List RowRange}
    (h : image.listRanges Table.typeDef column target = .ok ranges) :
    image.Runs column target fun type =>
      if type = 0 then .empty else ranges.toArray.getD (type - 1) .empty := by
  rw [Runs, h, ← (listRanges_spec h).1]
  congr 1
  apply List.ext_getElem
  · rw [List.length_map, List.length_range']
  · intro i hi hi'
    simp [hi]

/-- A row has an owner exactly if it is in the run of some type row. -/
theorem owned_iff (h : image.Runs column target rangeOf) (row : Nat) :
    image.Owned column target row ↔
      ∃ type ∈ List.range' 1 (image.rows Table.typeDef), row ∈ (rangeOf type).rows := by
  constructor
  · rintro ⟨ranges, hranges, range, hrange, hrow⟩
    cases h.symm.trans hranges
    obtain ⟨type, htype, rfl⟩ := List.mem_map.1 hrange
    exact ⟨type, htype, RowRange.mem_rows.2 hrow⟩
  · rintro ⟨type, htype, hrow⟩
    exact ⟨_, h, _, List.mem_map_of_mem htype, RowRange.mem_rows.1 hrow⟩

/-- No row has two owners. -/
theorem nodup (h : image.Runs column target rangeOf) :
    ((List.range' 1 (image.rows Table.typeDef)).flatMap fun type => (rangeOf type).rows).Nodup := by
  have hnodup := (listRanges_spec h).2.1
  rwa [List.flatMap_map] at hnodup

/-- The rows of a run are rows of the table. -/
theorem row_le (h : image.Runs column target rangeOf) {type row : Nat}
    (htype : type ∈ List.range' 1 (image.rows Table.typeDef)) (hrow : row ∈ (rangeOf type).rows) :
    row ≠ 0 ∧ row ≤ image.rows target :=
  (listRanges_spec h).2.2 _ (List.mem_map_of_mem htype) row hrow

end Runs

/-- The fields and the methods of the types are found by list columns. -/
theorem runs_of_membership (h : image.membership = .ok members) :
    image.Runs 4 Table.field members.fieldRange ∧
      image.Runs 5 Table.methodDef members.methodRange := by
  simp only [membership, bind_eq_ok_iff, pure_eq_ok_iff] at h
  obtain ⟨fields, hfields, methods, hmethods, -, -, -, -, -, -, rfl⟩ := h
  exact ⟨Runs.of_listRanges hfields, Runs.of_listRanges hmethods⟩

end Loads

end PublicAssembly.Image
