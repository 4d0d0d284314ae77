import PublicAssembly.Proofs.Image.Promotion
import PublicAssembly.Proofs.Module.Renumbering

/-!
# The nesting of a loaded module

A loaded module has one type for each type row, nested as the nesting rows say, and its ids are
given out in the order of the trees. A file whose nesting rows do not form trees is refused: a row
names a type row that is not there, two rows name the same nested type, or some rows lead in a
circle. No other nesting is refused.

## Main definitions

* `Image.IsOfRow`: what a type has from its row;
* `Image.Rebuilds`: what there is to say about the nesting of a loaded module;
* `Image.NestingFault`: what may be wrong with the nesting rows.

## Main statements

* `Loads.rebuilds`: the nesting of every loaded module;
* `exists_load_iff`: which files are refused for their nesting;
* `load_nesting`: the nesting of what is loaded, and what is refused.
-/

namespace PublicAssembly.Image

open Metadata (Table)
open Reading
open PublicAssembly.Tree (preorderAll mapAll)

/-- What a type has from its row, apart from its members. -/
structure IsOfRow (image : Image) (row : Nat) (decl : TypeDecl) : Prop where
  /-- The token names the row. -/
  token_eq : decl.token = some (token Table.typeDef row)
  /-- The name is that of the row. -/
  name_eq : image.cellString Table.typeDef row 1 = .ok decl.name
  /-- The namespace is that of the row. -/
  namespaceName_eq : image.cellString Table.typeDef row 2 = .ok decl.namespaceName
  /-- The flag word is that of the row. -/
  flags_eq : image.cell Table.typeDef row 0 = .ok decl.flags.toNat

/-- The types of a module are the type rows of an image, `rows` naming the row of each id, and they
are nested as the nesting rows say. -/
structure Rebuilds (image : Image) (m : Module) (rows : List Nat) : Prop where
  /-- Every type row is the row of one id. -/
  perm : rows.Perm (List.range' 1 (image.rows Table.typeDef))
  /-- There are no other types. -/
  size_eq : m.size = image.rows Table.typeDef
  /-- The type of an id has from its row what a type has from a row. -/
  isOfRow : ∀ id row, rows[id]? = some row → ∃ decl, m.get? id = some decl ∧ image.IsOfRow row decl
  /-- The lists of nested types, the types at the top and the parents agree. -/
  reachable : m.Reachable
  /-- A type stands at the top if no nesting row names its row as nested. -/
  parentOf?_eq_none_iff : ∀ id row, rows[id]? = some row →
    (m.parentOf? id = none ↔ ¬ image.NamesNested row)
  /-- The parent of a type is the type of the row that a nesting row names. -/
  parentOf?_eq_some_iff : ∀ id row outerId outer, rows[id]? = some row →
    rows[outerId]? = some outer → (m.parentOf? id = some outerId ↔ image.NamesEnclosing row outer)
  /-- Types at the same place stand in the order of their rows. -/
  pairwise_lt : ∀ place, ((m.typesAt place).map fun id => rows.getD id 0).Pairwise (· < ·)
  /-- The types are listed in the order of their ids. -/
  flatten_eq : m.flatten = List.range (image.rows Table.typeDef)

/-- What may be wrong with the nesting rows of an image. -/
inductive NestingFault (image : Image) : Prop where
  /-- A row names a type row that is not there. -/
  | badRow {n inner outer : Nat} (hlinks : image.Links n inner outer)
    (hbad : ¬ (image.HasTypeRow inner ∧ image.HasTypeRow outer)) : NestingFault image
  /-- Two rows name the same nested type. -/
  | nestedTwice {n n' inner outer outer' : Nat} (hne : n ≠ n') (hlinks : image.Links n inner outer)
    (hlinks' : image.Links n' inner outer') : NestingFault image
  /-- The rows lead from a type row back to it, which may be nested in itself. -/
  | circle {row : Nat} (hcircle : Relation.TransGen image.NamesEnclosing row row) :
    NestingFault image

section Loads

variable {data : Bytes} {m : Module} {image : Image} {name : String} {members : Membership}
  {enclosing : Enclosing} {decls : List (Tree TypeDecl)}

/-- What is read of a type row is what a type has from its row. -/
theorem isOfRow_of_typeDecl (hread : Image.read data = .ok image) {accessors : Array Accessors}
    {row : Nat} {decl : TypeDecl} (h : image.typeDecl members accessors row = .ok decl) :
    image.IsOfRow row decl := by
  obtain ⟨flags, name, space, fields, methods, hflags, hname, hspace, -, -, rfl⟩ :=
    typeDecl_eq_ok_iff.1 h
  refine ⟨rfl, hname, hspace, ?_⟩
  -- the flag word has four bytes, and its parts are put together again
  obtain ⟨-, -, header, hlayout, -⟩ := layout_of_read hread
  obtain ⟨offset, width, hplace, hnumber⟩ := cell_eq_ok_iff.1 hflags
  have hwidth : width = 4 := by
    rw [hlayout] at hplace
    exact Metadata.TableHeader.width_of_cell (by decide) hplace
      (show (Metadata.columns Table.typeDef)[0]? = some .doubleWord from rfl)
  subst hwidth
  have hword := toNat_typeFlags (Bytes.number_lt hnumber) (.ofFlags flags)
  rw [Visibility.bits_ofFlags, withLow_self] at hword
  rw [hflags, TypeDecl.flags, hword]

namespace Loads

/-! ### The module, row by row -/

/-- What is read of each type row, as a function of the row. -/
theorem exists_content (h : Loads data m image name members enclosing decls) :
    ∃ content : Nat → TypeDecl, decls = mapAll content enclosing.forest ∧
      ∀ row decl, image.typeDecl members members.accessors row = .ok decl → content row = decl := by
  let content (row : Nat) : TypeDecl :=
    match image.typeDecl members members.accessors row with
    | .ok decl => decl
    | .error _ => { name := "", visibility := .notPublic }
  have hcontent (row : Nat) (decl : TypeDecl)
      (hdecl : image.typeDecl members members.accessors row = .ok decl) : content row = decl := by
    simp only [content, hdecl]
  exact ⟨content, Tree.eq_mapAll_of_traverseAll hcontent h.decls_eq, hcontent⟩

/-- The types are those of the type rows in the order of the trees, with links between the places of
the rows in that order. -/
theorem types_eq (h : Loads data m image name members enclosing decls) {content : Nat → TypeDecl}
    (hdecls : decls = mapAll content enclosing.forest) {rows : List Nat}
    (hrows : rows = preorderAll enclosing.forest) :
    m.types.toList = rows.map fun row => (content row).linked
      ((enclosing.getD row none).map rows.idxOf)
      ((enclosing.nestedRows.getD row []).map rows.idxOf) := by
  have horder : rows = [] ++ (preorderAll enclosing.forest ++ []) := by simpa using hrows
  have hnodup : rows.Nodup := hrows ▸ enclosing.nodup_preorderAll_forest.1
  have harena := (Enclosing.unfolds_forest h.linksRows).arena_mapAll content horder hnodup
  rw [List.length_nil, Option.map_none, ← hdecls, ← hrows] at harena
  rw [h.module_eq, ← harena]
  rfl

/-- The types at the top are those of the rows at the top. -/
theorem roots_eq (h : Loads data m image name members enclosing decls) {rows : List Nat}
    (hrows : rows = preorderAll enclosing.forest) :
    m.roots.toList = enclosing.tops.map rows.idxOf := by
  obtain ⟨content, hdecls, -⟩ := h.exists_content
  have horder : rows = [] ++ (preorderAll enclosing.forest ++ []) := by simpa using hrows
  have hnodup : rows.Nodup := hrows ▸ enclosing.nodup_preorderAll_forest.1
  have hroots := Tree.rootNumbers_eq_map_idxOf horder hnodup
  rw [List.length_nil, Enclosing.forest, Enclosing.map_value_growTree, ← Enclosing.forest] at hroots
  rw [h.module_eq, hdecls, ← hroots, ← Tree.rootNumbers_mapAll content]
  rfl

/-- A loaded module is built type by type. -/
theorem reachable (h : Loads data m image name members enclosing decls) : m.Reachable := by
  rw [h.module_eq]
  exact ((Module.Reachable.empty name).attachTrees
    (Module.attachTrees_empty_eq_ok_iff.2 ⟨decls, h.decls_eq, rfl⟩)).withImage data

/-! ### The nesting of the module -/

section Rows

variable {rows : List Nat} {id row : Nat}

/-- The types of the ids are those of the rows, with links between the places of the rows. -/
theorem get?_eq_map (h : Loads data m image name members enclosing decls) {content : Nat → TypeDecl}
    (hdecls : decls = mapAll content enclosing.forest) (hrows : rows = preorderAll enclosing.forest)
    (id : Nat) : m.get? id = rows[id]?.map fun row => (content row).linked
      ((enclosing.getD row none).map rows.idxOf)
      ((enclosing.nestedRows.getD row []).map rows.idxOf) := by
  rw [Module.get?, ← Array.getElem?_toList, h.types_eq hdecls hrows, List.getElem?_map]

/-- The type of an id is that of its row, with links between the places of the rows. -/
theorem get?_of_row (h : Loads data m image name members enclosing decls) {content : Nat → TypeDecl}
    (hdecls : decls = mapAll content enclosing.forest) (hrows : rows = preorderAll enclosing.forest)
    (hid : rows[id]? = some row) :
    m.get? id = some ((content row).linked ((enclosing.getD row none).map rows.idxOf)
      ((enclosing.nestedRows.getD row []).map rows.idxOf)) := by
  rw [h.get?_eq_map hdecls hrows, hid, Option.map_some]

/-- The parent of a type is at the place of the row around its row. -/
theorem parentOf?_of_row (h : Loads data m image name members enclosing decls)
    (hrows : rows = preorderAll enclosing.forest) (hid : rows[id]? = some row) :
    m.parentOf? id = (enclosing.getD row none).map rows.idxOf := by
  obtain ⟨content, hdecls, -⟩ := h.exists_content
  rw [Module.parentOf?, h.get?_of_row hdecls hrows hid]
  rfl

/-- The place of a type row leads back to the row. -/
theorem getElem?_idxOf_row (h : Loads data m image name members enclosing decls)
    (hrows : rows = preorderAll enclosing.forest) (hmem : row ∈ enclosing.typeRows) :
    rows[rows.idxOf row]? = some row := by
  rw [h.typeRows_eq, ← h.perm_rows.mem_iff, ← hrows] at hmem
  rw [List.getElem?_eq_getElem (List.idxOf_lt_length_of_mem hmem), List.getElem_idxOf]

/-- Type rows in order have places that lead to rows in order. -/
theorem pairwise_getD_idxOf (h : Loads data m image name members enclosing decls)
    (hrows : rows = preorderAll enclosing.forest) {picked : List Nat}
    (hsorted : picked.Pairwise (· < ·)) (hmem : ∀ row ∈ picked, row ∈ enclosing.typeRows) :
    ((picked.map rows.idxOf).map fun id => rows.getD id 0).Pairwise (· < ·) := by
  have hback : ∀ row ∈ picked, rows.getD (rows.idxOf row) 0 = row := by
    intro row hrow
    rw [List.getD_eq_getElem?_getD, h.getElem?_idxOf_row hrows (hmem row hrow)]
    rfl
  have hmap : (picked.map rows.idxOf).map (fun id => rows.getD id 0) = picked := by
    rw [List.map_map]
    exact (List.map_congr_left hback).trans (List.map_id' picked)
  rwa [hmap]

/-- The types at one place stand in the order of their rows. -/
theorem pairwise_typesAt (h : Loads data m image name members enclosing decls)
    (hrows : rows = preorderAll enclosing.forest) (place : Option Nat) :
    ((m.typesAt place).map fun id => rows.getD id 0).Pairwise (· < ·) := by
  -- the rows at the top, and those around which a row stands, are picked from all in their order
  have hsorted : enclosing.typeRows.Pairwise (· < ·) := List.pairwise_lt_range'
  obtain ⟨content, hdecls, -⟩ := h.exists_content
  cases place with
  | none =>
    rw [Module.typesAt, h.roots_eq hrows]
    apply h.pairwise_getD_idxOf hrows (hsorted.filter _)
    intro row hmem
    exact (Enclosing.mem_tops_iff.1 hmem).1
  | some outerId =>
    rw [Module.typesAt, Module.nestedIn]
    cases houter : rows[outerId]? with
    | none =>
      have hnone : m.get? outerId = none := by
        rw [h.get?_eq_map hdecls hrows, houter, Option.map_none]
      rw [hnone]
      exact .nil
    | some outer =>
      rw [h.get?_of_row hdecls hrows houter]
      apply h.pairwise_getD_idxOf hrows
      · rw [Enclosing.getD_nestedRows]
        split
        · exact hsorted.filter _
        · exact .nil
      · intro row hmem
        exact ((Enclosing.mem_nestedRows outer).2 row hmem).1

end Rows

/-- The nesting of a loaded module is that of the nesting rows. -/
theorem rebuilds (h : Loads data m image name members enclosing decls) :
    image.Rebuilds m (preorderAll enclosing.forest) where
  perm := h.perm_rows
  size_eq := h.size_eq
  isOfRow := by
    intro id row hid
    obtain ⟨content, hdecls, hcontent⟩ := h.exists_content
    obtain ⟨decl, hdecl⟩ := h.exists_typeDecl (h.perm_rows.mem_iff.1 (List.mem_of_getElem? hid))
    refine ⟨_, h.get?_of_row hdecls rfl hid, ?_⟩
    rw [hcontent row decl hdecl]
    -- the links are not part of what a type has from its row
    obtain ⟨htoken, hname, hspace, hflags⟩ := isOfRow_of_typeDecl h.image_eq hdecl
    exact ⟨htoken, hname, hspace, hflags⟩
  reachable := h.reachable
  parentOf?_eq_none_iff := by
    intro id row hid
    rw [h.parentOf?_of_row rfl hid, Option.map_eq_none_iff, ← h.isSome_enclosing_iff,
      Option.not_isSome_iff_eq_none]
  parentOf?_eq_some_iff := by
    intro id row outerId outer hid houter
    rw [h.parentOf?_of_row rfl hid, ← nestedIn_iff h.enclosing_eq, Enclosing.NestedIn,
      Option.map_eq_some_iff]
    constructor
    · rintro ⟨other, hother, rfl⟩
      rw [h.getElem?_idxOf_row rfl (h.linksRows row other hother).2] at houter
      rw [hother, houter]
    · -- no row stands at two places
      intro hnested
      refine ⟨outer, hnested, ?_⟩
      obtain ⟨hlt, hat⟩ := List.getElem?_eq_some_iff.1 houter
      rw [← hat, enclosing.nodup_preorderAll_forest.1.idxOf_getElem]
  pairwise_lt := h.pairwise_typesAt rfl
  flatten_eq := h.flatten_eq

end Loads

/-! ### Files that are refused -/

/-- Nothing is wrong with the nesting rows if they can be taken in and the trees hold all rows. -/
theorem not_nestingFault_iff (hread : Image.read data = .ok image) :
    ¬ image.NestingFault ↔ ∃ enclosing, image.enclosing = .ok enclosing ∧
      (preorderAll enclosing.forest).Perm enclosing.typeRows := by
  -- the rows that were taken in nest the types as the rows in the file do
  have hcircle {enclosing : Enclosing} (henclosing : image.enclosing = .ok enclosing) :
      enclosing.NestedIn = image.NamesEnclosing :=
    funext fun inner => funext fun outer => propext (nestedIn_iff henclosing inner outer)
  constructor
  · intro hsound
    obtain ⟨enclosing, henclosing⟩ := (exists_enclosing_iff hread).2
      ⟨fun n inner outer hn => by_contra fun hbad => hsound (.badRow hn hbad),
        fun n n' inner outer outer' hn hn' =>
          by_contra fun hne => hsound (.nestedTwice hne hn hn')⟩
    refine ⟨enclosing, henclosing, ?_⟩
    rw [Enclosing.perm_forest_iff (enclosing_spec henclosing).2.2, hcircle henclosing]
    exact fun row hrow => hsound (.circle hrow)
  · rintro ⟨enclosing, henclosing, hperm⟩ hfault
    obtain ⟨hrows, honce⟩ := (exists_enclosing_iff hread).1 ⟨enclosing, henclosing⟩
    rw [Enclosing.perm_forest_iff (enclosing_spec henclosing).2.2, hcircle henclosing] at hperm
    cases hfault with
    | badRow hlinks hbad => exact hbad (hrows _ _ _ hlinks)
    | nestedTwice hne hlinks hlinks' => exact hne (honce _ _ _ _ _ hlinks hlinks')
    | circle hcircle => exact hperm _ hcircle

/-- A file that was surveyed is refused if something is wrong with its nesting rows, or if one of
its type rows cannot be read. -/
theorem exists_load_iff (hsurvey : survey data = .ok (image, name, members)) :
    (∃ m, load data = .ok m) ↔ ¬ image.NestingFault ∧
      ∀ row, image.HasTypeRow row → ∃ decl, image.typeDecl members members.accessors row = .ok decl := by
  obtain ⟨hread, hname, hmembers⟩ := survey_eq_ok_iff.1 hsurvey
  rw [not_nestingFault_iff hread]
  constructor
  · rintro ⟨m, hm⟩
    obtain ⟨image', name', members', enclosing, decls, h⟩ := load_eq_ok_iff.1 hm
    cases hsurvey.symm.trans (survey_eq_ok_iff.2 ⟨h.image_eq, h.name_eq, h.members_eq⟩)
    refine ⟨⟨enclosing, h.enclosing_eq, h.typeRows_eq ▸ h.perm_rows⟩, fun row hrow => ?_⟩
    refine h.exists_typeDecl (List.mem_range'_1.2 ?_)
    have hbounds : row ≠ 0 ∧ row ≤ image.rows Table.typeDef := hrow
    omega
  · rintro ⟨⟨enclosing, henclosing, hperm⟩, htypes⟩
    have hlength : enclosing.typeRows.length = image.rows Table.typeDef := by
      rw [Enclosing.typeRows, List.length_range', (enclosing_spec henclosing).1,
        Nat.add_sub_cancel]
    -- the trees hold the rows of the table and no others
    have hdecl : ∀ row ∈ Tree.preorderAll enclosing.forest,
        ∃ decl, image.typeDecl members members.accessors row = .ok decl := by
      intro row hrow
      refine htypes row ?_
      have hmem := hperm.mem_iff.1 hrow
      rw [Enclosing.typeRows, List.mem_range'_1] at hmem
      rw [Enclosing.typeRows, List.length_range'] at hlength
      constructor <;> omega
    obtain ⟨decls, hdecls⟩ := Tree.exists_traverse hdecl
    have hcount := congrArg List.length (Tree.preorderAll_traverse hdecls)
    rw [List.length_map, List.length_map, hperm.length_eq, hlength] at hcount
    exact ⟨_, load_eq_ok_iff.2 ⟨image, name, members, enclosing, decls, hread, hname, hmembers,
      henclosing, hdecls, hcount.symm, rfl⟩⟩

end Loads

/-- A module that is loaded has one type for each type row, nested as the nesting rows say, in the
order of the trees. A file is refused if its nesting rows do not form trees, and a file that was
surveyed is refused for nothing else but a type row that cannot be read. The trees are what the
nesting rows lead to, however deep. -/
theorem load_nesting (data : Bytes) :
    (∀ m, load data = .ok m →
      ∃ image rows, Image.read data = .ok image ∧ image.Rebuilds m rows) ∧
    (∀ image, Image.read data = .ok image → image.NestingFault →
      ∃ fault, load data = .error fault) ∧
    (∀ image name members, survey data = .ok (image, name, members) →
      ((∃ m, load data = .ok m) ↔ ¬ image.NestingFault ∧ ∀ row, image.HasTypeRow row →
        ∃ decl, image.typeDecl members members.accessors row = .ok decl)) ∧
    ∀ image enclosing, Image.read data = .ok image → image.enclosing = .ok enclosing →
      ∀ trees, enclosing.Unfolds none trees ∧ trees.map Tree.value = enclosing.tops ↔
        trees = enclosing.forest := by
  refine ⟨fun m hm => ?_, fun image hread hfault => ?_, fun image name members => exists_load_iff,
    fun image enclosing _ henclosing => Enclosing.unfolds_iff (enclosing_spec henclosing).2.2⟩
  · obtain ⟨image, name, members, enclosing, decls, h⟩ := load_eq_ok_iff.1 hm
    exact ⟨image, _, h.image_eq, h.rebuilds⟩
  · cases hload : load data with
    | error fault => exact ⟨fault, rfl⟩
    | ok m =>
      obtain ⟨image', name, members, enclosing, decls, h⟩ := load_eq_ok_iff.1 hload
      cases hread.symm.trans h.image_eq
      have hsurvey := survey_eq_ok_iff.2 ⟨h.image_eq, h.name_eq, h.members_eq⟩
      exact absurd hfault ((exists_load_iff hsurvey).1 ⟨m, hload⟩).1

/-- The small image, but its second type is nested in itself. -/
def circularImage : Bytes :=
  smallImage.setIfInBounds 508 2

/-- The small image is loaded, and nested as its nesting rows say. Where its second type is nested in
itself, the file is refused, although the first type stands at the top. -/
theorem load_nesting_smallImage :
    (∃ (image : Image) (rows : List Nat) (m : Module), load smallImage = .ok m ∧
      image.Rebuilds m rows) ∧
      ∃ (image : Image) (fault : Fault), Image.read circularImage = .ok image ∧ image.NestingFault ∧
        ¬ image.NamesNested 1 ∧ load circularImage = .error fault := by
  constructor
  · obtain ⟨-, m, -, hload, -⟩ := exists_load_smallImage
    obtain ⟨image, rows, -, hrebuilds⟩ := (load_nesting smallImage).1 m hload
    exact ⟨image, rows, m, hload, hrebuilds⟩
  · have htry : okAnd (fun image => decide (image.cell Table.nestedClass 1 0 = .ok 2 ∧
        image.cell Table.nestedClass 1 1 = .ok 2 ∧ image.rows Table.nestedClass = 1))
        (Image.read circularImage) = true := by decide +kernel
    obtain ⟨image, hread, hcells⟩ := okAnd_eq_true_iff.1 htry
    obtain ⟨hinner, houter, hrows⟩ := of_decide_eq_true hcells
    have hfault : image.NestingFault := .circle (.single ⟨1, hinner, houter⟩)
    obtain ⟨fault, hload⟩ := (load_nesting circularImage).2.1 image hread hfault
    refine ⟨image, fault, hread, hfault, ?_, hload⟩
    rintro ⟨n, hn⟩
    obtain ⟨hne, hle⟩ := row_of_cell hn
    obtain rfl : n = 1 := by omega
    rw [hinner] at hn
    cases hn

end PublicAssembly.Image
