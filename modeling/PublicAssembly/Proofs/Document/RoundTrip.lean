import PublicAssembly.Proofs.Document.Promotion
import PublicAssembly.Proofs.Module.Renumbering

/-!
# Modules that become documents and modules again

A document names the accessors of a property and lists the types as trees. A module that comes of
its own document has therefore forgotten the rows of its image and the order in which its types were
attached, and every accessor is the first method of its name. A module that came of a document
before has nothing left to forget.

## Main definitions

* `TypeDecl.described`: what a document keeps of a type;
* `Module.described`: what a document keeps of a module, the types being listed as trees.

## Main statements

* `TypeEntry.toDecl_ofDecl`: a type comes back as what the document kept of it;
* `Document.ofModule_of_toModule`: a module of a document has that document;
* `Document.map_ofDecl_of_toModule`: its types stand in the order in which the document lists them;
* `Document.toModule_ofModule`: a module comes back as what its document kept of it.
-/

namespace PublicAssembly

open Reading

/-! ### What a document keeps -/

/-- The method without the row it came from. -/
def MethodDecl.withoutRow (method : MethodDecl) : MethodDecl :=
  { method with token := none }

/-- The field without the row it came from. -/
def FieldDecl.withoutRow (field : FieldDecl) : FieldDecl :=
  { field with token := none }

namespace TypeDecl

/-- The place of the first method that has the name of the one at a place, if there is one. -/
def firstNamed (decl : TypeDecl) (place : Option Nat) : Option Nat :=
  (place.bind fun i => decl.methods[i]?).bind fun method => decl.findMethod? method.name

/-- What a document keeps of a type: no rows, and of each accessor its name, which the first method
of this name has. -/
def described (decl : TypeDecl) : TypeDecl :=
  { decl with
    token := none
    methods := decl.methods.map MethodDecl.withoutRow
    fields := decl.fields.map FieldDecl.withoutRow
    properties := decl.properties.map fun property => { property with
      getter := decl.firstNamed property.getter
      setter := decl.firstNamed property.setter } }

/-- The type with its links renamed. -/
def renamed (rename : Nat → Nat) (decl : TypeDecl) : TypeDecl :=
  decl.linked (decl.parent.map rename) (decl.nested.toList.map rename)

end TypeDecl

/-- What a document keeps of a module: the types in the order of the trees, with links between their
positions, and without a file. -/
def Module.described (m : Module) : Module where
  name := m.name
  types := ((m.flatten.filterMap m.get?).map fun decl =>
    decl.described.renamed m.flatten.idxOf).toArray
  roots := (m.roots.toList.map m.flatten.idxOf).toArray

/-! ### Types -/

namespace TypeEntry

/-- An accessor that is looked up by its name is found at the first method of this name. -/
theorem findAccessor_accessorName (decl : TypeDecl) (property : String) (place : Option Nat) :
    findAccessor (ofDecl decl).declWithoutProperties property (accessorName decl place) =
      .ok (decl.firstNamed place) := by
  -- the methods of the entry have the names that the methods of the type have
  have hfind (name : String) :
      (ofDecl decl).declWithoutProperties.findMethod? name = decl.findMethod? name := by
    simp [TypeDecl.findMethod?, declWithoutProperties, ofDecl, Function.comp_def,
      MethodEntry.toDecl, MethodEntry.ofDecl]
  rw [accessorName, TypeDecl.firstNamed]
  cases hmethod : place.bind fun i => decl.methods[i]? with
  | none => rfl
  | some method =>
    rw [Option.map_some, Option.bind_some, findAccessor, hfind]
    cases hplace : decl.findMethod? method.name with
    | some found => rfl
    | none =>
      -- the first method of a name is found, as the method itself has that name
      obtain ⟨i, -, hi⟩ := Option.bind_eq_some_iff.1 hmethod
      have hother := List.findIdx?_eq_none_iff.1 hplace method (List.mem_of_getElem? hi)
      simp at hother

/-- A type comes back as what its entry keeps of it, without links. -/
theorem toDecl_ofDecl (decl : TypeDecl) :
    (ofDecl decl).toDecl = .ok (decl.described.linked none []) := by
  have hproperties :
      (ofDecl decl).properties.mapM (propertyDecl (ofDecl decl).declWithoutProperties) =
        .ok decl.described.properties := by
    have hproperty (property : PropertyDecl) :
        propertyDecl (ofDecl decl).declWithoutProperties
            ⟨property.name, accessorName decl property.getter,
              accessorName decl property.setter⟩ =
          .ok { property with
            getter := decl.firstNamed property.getter
            setter := decl.firstNamed property.setter } := by
      simp only [propertyDecl, findAccessor_accessorName, ok_bind]
      rfl
    rw [mapM_eq_ok_iff, ofDecl, TypeDecl.described, List.map_map, List.map_map]
    exact List.map_congr_left fun property _ => hproperty property
  rw [toDecl, hproperties, ok_bind, pure_eq_ok_iff]
  -- rows and links are what an entry has no place for
  simp [TypeDecl.described, TypeDecl.linked, declWithoutProperties, ofDecl, MethodEntry.toDecl,
    MethodEntry.ofDecl, FieldEntry.toDecl, FieldEntry.ofDecl, MethodDecl.withoutRow,
    FieldDecl.withoutRow]

/-- A type of an entry has that entry. -/
theorem ofDecl_of_toDecl (entry : TypeEntry) (decl : TypeDecl) (h : entry.toDecl = .ok decl) :
    ofDecl decl = entry := by
  simp only [toDecl, bind_eq_ok_iff, pure_eq_ok_iff] at h
  obtain ⟨properties, hproperties, rfl⟩ := h
  rw [ofDecl]
  congr 1
  · simp [declWithoutProperties, Function.comp_def]
  · simp [declWithoutProperties, Function.comp_def]
  · exact properties_of_mapM hproperties (by simp [declWithoutProperties, MethodEntry.toDecl])

end TypeEntry

/-! ### Modules -/

namespace Module

variable {m : Module}

/-- What a document keeps of the type of an id, if there is one. -/
def describedAt (m : Module) (id : Nat) : TypeDecl :=
  match m.get? id with
  | some decl => decl.described
  | none => { name := "", visibility := .notPublic }

/-- The trees of a module, with what a document keeps of each type, are the module that the document
keeps. -/
theorem IsForest.ofTrees_described (hm : m.IsForest) :
    ofTrees m.name (m.forest.map (Tree.map fun id => (m.describedAt id).linked none [])) =
      m.described := by
  -- every listed id is that of a type, so no type is left out and none is made up
  have hlisted (id : Nat) (hid : id ∈ m.flatten) :
      (m.get? id).map (fun decl => decl.described.renamed m.flatten.idxOf) =
        some (m.relinked m.flatten id ((m.describedAt id).linked none [])) := by
    rw [hm.flatten_eq] at hid
    have hlt : id < m.types.size := hm.shows_forest.lt_size id hid
    have hget : m.get? id = some m.types[id] := Array.getElem?_eq_getElem hlt
    rw [relinked, describedAt, parentOf?, nestedIn, hget]
    rfl
  rw [hm.ofTrees_forest, described, List.map_filterMap, List.filterMap_congr hlisted,
    List.filterMap_eq_map']

end Module

namespace Document

/-- A module that is a forest comes back as what its document kept of it. -/
theorem toModule_ofModule_of_isForest {m : Module} (hm : m.IsForest) :
    (ofModule m).toModule = .ok m.described := by
  have hread (id : Nat) :
      (entryOf m id).toDecl = .ok ((m.describedAt id).linked none []) := by
    rw [entryOf, Module.describedAt]
    cases m.get? id with
    | some decl => exact TypeEntry.toDecl_ofDecl decl
    | none => rfl
  have hread := Tree.traverseAll_mapAll hread m.forest
  rw [Tree.mapAll_eq, Tree.mapAll_eq] at hread
  rw [ofModule_eq hm]
  exact toModule_eq_ok_iff.2 ⟨_, hread, hm.ofTrees_described.symm⟩

/-- The module of a document has that document. -/
theorem ofModule_of_toModule {document : Document} {m : Module}
    (h : document.toModule = .ok m) : ofModule m = document := by
  obtain ⟨decls, hdecls, rfl⟩ := toModule_eq_ok_iff.1 h
  rw [ofModule_ofTrees, ← Tree.mapAll_eq, Tree.mapAll_traverseAll TypeEntry.ofDecl_of_toDecl hdecls]

/-- The types of the module of a document stand there in the order in which the document lists them,
each with its entry. -/
theorem map_ofDecl_of_toModule {document : Document} {m : Module}
    (h : document.toModule = .ok m) : m.types.toList.map TypeEntry.ofDecl = document.entries := by
  obtain ⟨decls, hdecls, rfl⟩ := toModule_eq_ok_iff.1 h
  rw [Module.ofTrees, Module.map_arena_eq (fun _ _ _ => rfl), entries,
    Tree.map_preorderAll_traverse TypeEntry.ofDecl_of_toDecl hdecls, List.map_id']

/-- A module that is built comes back as what its document kept of it, every type standing where it
was listed; all ids that are looked up on the way are those of types. A module that came of a document
comes back as it is. -/
theorem toModule_ofModule {m : Module} (h : m.Reachable) :
    m.flatten.Perm (List.range m.size) ∧
      (∀ place, ∀ id ∈ m.typesAt place, id < m.size) ∧
      (ofModule m).toModule = .ok m.described ∧
      ∀ (document : Document) (n : Module), document.toModule = .ok n →
        (ofModule n).toModule = .ok n := by
  have hm := h.isForest
  refine ⟨hm.flatten_eq ▸ hm.perm_listing, fun _ _ hid => (hm.mem_typesAt.1 hid).1,
    toModule_ofModule_of_isForest hm, fun document n hn => ?_⟩
  rw [ofModule_of_toModule hn]
  exact hn

/-- The type that was attached last is listed second, and has taken that place. The getter is the
first method of its name now, and the setter that was not there is gone. -/
theorem toModule_ofModule_sampleModule :
    Module.sampleModule.Reachable ∧
      (ofModule Module.sampleModule).toModule = .ok Module.sampleModule.described ∧
      Module.sampleModule.described.roots = #[0, 2] ∧
      Module.sampleModule.described.parentOf? 1 = some 0 ∧
      (Module.sampleModule.described.get? 1).map TypeDecl.name = some "Inner" ∧
      (Module.sampleModule.described.get? 1).map TypeDecl.properties =
        some [⟨"Value", some 0, none⟩] :=
  have hback := toModule_ofModule Module.reachable_sampleModule
  ⟨Module.reachable_sampleModule, hback.2.2.1, by decide, by decide, by decide, by decide⟩

end Document

end PublicAssembly
