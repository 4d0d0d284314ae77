import PublicAssembly.Proofs.Document.Recursion
import PublicAssembly.Proofs.Promotion.Effect

/-!
# Documents that are made public

What becomes of a document on its way through a module can be said without the module:
`Document.publicized` goes through the trees of the document and makes every type public, with
regard to its place, and every method and field of it. A document has no module exactly if some
property names an accessor that its type does not have.

## Main statements

* `toModule_isOk_iff`: which documents have a module;
* `toModule_prepare`: preparing the module of a document is making the document public.
-/

namespace PublicAssembly

open Reading
open PublicAssembly.Tree (preorderAll traverseAll mapNestedAll)

/-! ### Making entries public -/

/-- The method with everyone allowed to use it, and without its code if `strip` asks for that. -/
def MethodEntry.publicized (strip : Bool) (entry : MethodEntry) : MethodEntry :=
  { entry with
    access := .publicMember
    body := if strip then entry.body.map fun body => { body with code := #[] } else entry.body }

/-- The field with everyone allowed to use it, unless it has one of the names to keep. -/
def FieldEntry.publicized (kept : List String) (entry : FieldEntry) : FieldEntry :=
  if entry.name ∈ kept then entry else { entry with access := .publicMember }

namespace TypeEntry

/-- The type with everyone allowed to use it and its members, where it stands. -/
def publicized (kept : List String) (strip nested : Bool) (entry : TypeEntry) : TypeEntry :=
  { entry with
    visibility := if nested then .nestedPublic else .publicType
    methods := entry.methods.map (MethodEntry.publicized strip)
    fields := entry.fields.map (FieldEntry.publicized kept) }

/-- The type has a method of the name that an accessor is given by, if it is given at all. -/
def HasAccessor (entry : TypeEntry) (accessor : Option String) : Prop :=
  ∀ name, accessor = some name → ∃ method ∈ entry.methods, method.name = name

/-- Some property of the type names a getter or a setter that is no method of the type. -/
def HasUnknownAccessor (entry : TypeEntry) : Prop :=
  ∃ property ∈ entry.properties,
    ¬ entry.HasAccessor property.getter ∨ ¬ entry.HasAccessor property.setter

end TypeEntry

namespace Document

/-- The names of all events, of whatever type. -/
def eventNames (document : Document) : List String :=
  document.entries.flatMap TypeEntry.events

/-- The document with everything public that the settings make public. -/
def publicized (settings : PromotionSettings) (document : Document) : Document :=
  let kept := if settings.keepEventFields then document.eventNames else []
  { document with
    types := mapNestedAll (TypeEntry.publicized kept settings.stripBodies) false document.types }

/-- Some property of some type, at whatever depth, names a getter or a setter that is no method of
the same type. -/
def HasUnknownAccessor (document : Document) : Prop :=
  ∃ entry ∈ document.entries, entry.HasUnknownAccessor

end Document

/-! ### Which documents have a module -/

namespace TypeEntry

/-- Looking up an accessor succeeds exactly if the type has it. -/
theorem findAccessor_isOk_iff (entry : TypeEntry) (property : String) (accessor : Option String) :
    (∃ place, findAccessor entry.declWithoutProperties property accessor = .ok place) ↔
      entry.HasAccessor accessor := by
  cases accessor with
  | none => simp [findAccessor, HasAccessor]
  | some name =>
    have hfind : entry.declWithoutProperties.findMethod? name = none ↔
        ¬ entry.HasAccessor (some name) := by
      simp [TypeDecl.findMethod?, declWithoutProperties, HasAccessor, MethodEntry.toDecl]
    rw [findAccessor]
    cases hplace : entry.declWithoutProperties.findMethod? name with
    | none => simpa using hfind.1 hplace
    | some place => simpa using not_not.1 (mt hfind.2 (by simp [hplace]))

/-- A type can be declared exactly if all accessors of its properties are methods of it. -/
theorem toDecl_isOk_iff (entry : TypeEntry) :
    (∃ decl, entry.toDecl = .ok decl) ↔ ¬ entry.HasUnknownAccessor := by
  have hproperty (property : PropertyEntry) :
      (∃ decl, propertyDecl entry.declWithoutProperties property = .ok decl) ↔
        entry.HasAccessor property.getter ∧ entry.HasAccessor property.setter := by
    simp only [propertyDecl, bind_eq_ok_iff, pure_eq_ok_iff, ← findAccessor_isOk_iff entry
      property.name]
    constructor
    · rintro ⟨-, getter, hgetter, setter, hsetter, -⟩
      exact ⟨⟨getter, hgetter⟩, setter, hsetter⟩
    · rintro ⟨⟨getter, hgetter⟩, setter, hsetter⟩
      exact ⟨_, getter, hgetter, setter, hsetter, rfl⟩
  -- nothing but a property can keep a type from being declared
  have hdecl : (∃ decl, entry.toDecl = .ok decl) ↔
      ∃ found, entry.properties.mapM (propertyDecl entry.declWithoutProperties) = .ok found := by
    simp only [toDecl, bind_eq_ok_iff, pure_eq_ok_iff]
    constructor
    · rintro ⟨-, found, hfound, -⟩
      exact ⟨found, hfound⟩
    · rintro ⟨found, hfound⟩
      exact ⟨_, found, hfound, rfl⟩
  rw [hdecl, exists_mapM_eq_ok_iff]
  simp only [hproperty, HasUnknownAccessor, not_exists, not_and, not_or, not_not]

/-! ### Entries on their way through a module -/

/-- The name of an accessor is found among the names of the methods. -/
theorem accessorName_eq (decl : TypeDecl) (place : Option Nat) :
    accessorName decl place = place.bind fun i => (decl.methods.map MethodDecl.name)[i]? := by
  cases place <;> simp [accessorName]

/-- The place that an accessor is found at has its name. -/
theorem name_of_findAccessor {entry : TypeEntry} {property : String}
    {accessor : Option String} {place : Option Nat}
    (h : findAccessor entry.declWithoutProperties property accessor = .ok place) :
    (place.bind fun i => (entry.methods.map MethodEntry.name)[i]?) = accessor := by
  cases accessor with
  | none =>
    cases h
    rfl
  | some name =>
    rw [findAccessor] at h
    split at h
    · next i hfind =>
      cases h
      -- the place is the first one where a method has the name
      obtain ⟨hi, hname, -⟩ := List.findIdx?_eq_some_iff_getElem.1 hfind
      simp only [declWithoutProperties, List.length_map] at hi
      simp only [declWithoutProperties, List.getElem_map, beq_iff_eq] at hname
      simp [hi, ← hname, MethodEntry.toDecl]
    · cases h

/-- Accessors that were looked up by their names have these names in every type whose methods are
named alike. -/
theorem properties_of_mapM {entry : TypeEntry} {properties : List PropertyDecl}
    (h : entry.properties.mapM (propertyDecl entry.declWithoutProperties) = .ok properties)
    {decl : TypeDecl}
    (hnames : decl.methods.map MethodDecl.name = entry.methods.map MethodEntry.name) :
    (properties.map fun property : PropertyDecl =>
      (⟨property.name, accessorName decl property.getter, accessorName decl property.setter⟩ :
        PropertyEntry)) = entry.properties := by
  -- place by place, since a property is read from the entry at its own place
  apply List.ext_getElem?
  intro i
  have hi := getElem?_mapM h i
  rw [List.getElem?_map]
  cases hentry : entry.properties[i]? with
  | none =>
    rw [hentry] at hi
    simpa using hi.symm
  | some property =>
    rw [hentry] at hi
    obtain ⟨found, hfound, hread⟩ := Option.map_eq_some_iff.1 hi.symm
    have hproperty := hread.symm
    simp only [propertyDecl, bind_eq_ok_iff, pure_eq_ok_iff] at hproperty
    obtain ⟨getter, hgetter, setter, hsetter, rfl⟩ := hproperty
    rw [hfound, Option.map_some, accessorName_eq, accessorName_eq, hnames,
      name_of_findAccessor hgetter, name_of_findAccessor hsetter]

end TypeEntry

/-- A described method that is made public has the entry made public as its entry. -/
theorem MethodEntry.ofDecl_publicized (strip : Bool) (entry : MethodEntry) :
    ofDecl (entry.toDecl.promote.strippedIf strip) = entry.publicized strip := by
  cases strip <;> rfl

/-- A described field that is made public has the entry made public as its entry. -/
theorem FieldEntry.ofDecl_publicized {guard : Guard} {kept : List String}
    (hguard : ∀ name, guard.keeps name = true ↔ name ∈ kept) (entry : FieldEntry) :
    ofDecl (entry.toDecl.publicized guard) = entry.publicized kept := by
  by_cases h : entry.name ∈ kept
  · rw [publicized, if_pos h, FieldDecl.publicized, if_pos ((hguard entry.toDecl.name).2 h),
      ofDecl_toDecl]
  · rw [publicized, if_neg h, FieldDecl.publicized, if_neg (mt (hguard entry.toDecl.name).1 h)]
    rfl

/-- A declared type has the events of its entry. -/
theorem TypeEntry.events_of_toDecl (entry : TypeEntry) (decl : TypeDecl)
    (h : entry.toDecl = .ok decl) : decl.events = entry.events := by
  simp only [toDecl, bind_eq_ok_iff, pure_eq_ok_iff] at h
  obtain ⟨properties, -, rfl⟩ := h
  rfl

/-- A described type that is made public has the entry made public as its entry. -/
theorem TypeEntry.ofDecl_publicized {guard : Guard} {kept : List String}
    (hguard : ∀ name, guard.keeps name = true ↔ name ∈ kept) {entry : TypeEntry}
    {decl : TypeDecl} (h : entry.toDecl = .ok decl) (strip nested : Bool) :
    ofDecl ((decl.publicized guard nested).strippedIf strip) =
      entry.publicized kept strip nested := by
  simp only [toDecl, bind_eq_ok_iff, pure_eq_ok_iff] at h
  obtain ⟨properties, hproperties, rfl⟩ := h
  rw [publicized, ofDecl]
  congr 1
  · simp [TypeDecl.strippedIf, TypeDecl.publicized, declWithoutProperties,
      ← MethodEntry.ofDecl_publicized]
  · simp [TypeDecl.strippedIf, TypeDecl.publicized, declWithoutProperties,
      ← FieldEntry.ofDecl_publicized hguard]
  · refine properties_of_mapM hproperties ?_
    cases strip <;> simp [TypeDecl.strippedIf, TypeDecl.publicized, declWithoutProperties,
      MethodDecl.strippedIf, MethodDecl.strip, MethodDecl.promote, MethodEntry.toDecl]

namespace Document

/-- The guard over the types of a described module keeps the names of the events of the
document, if the settings ask for a guard. -/
theorem keeps_guardOf {document : Document} {decls : List (Tree TypeDecl)}
    (h : traverseAll TypeEntry.toDecl document.types = .ok decls) (settings : PromotionSettings)
    (name : String) :
    (Publication.guardOf settings (.ofTrees document.name decls)
      (Module.ofTrees document.name decls).flatten).keeps name = true ↔
        name ∈ if settings.keepEventFields then document.eventNames else [] := by
  have hevents : (Module.ofTrees document.name decls).eventNames = document.eventNames := by
    rw [Module.eventNames, List.flatMap_def, Module.ofTrees,
      Module.map_arena_eq (fun _ _ _ => rfl), eventNames, entries, List.flatMap_def,
      Tree.map_preorderAll_traverse TypeEntry.events_of_toDecl h]
  rw [Publication.keeps_guardOf settings (Module.size_ofTrees document.name decls)
    (Module.flatten_ofTrees document.name decls), Publication.keptNames, hevents]

/-- A module that a document has, prepared, is the document made public. -/
theorem ofModule_prepare {document : Document} {m : Module} (h : document.toModule = .ok m)
    (settings : PromotionSettings) :
    ofModule (Publication.prepare settings m).module = document.publicized settings := by
  obtain ⟨decls, hdecls, rfl⟩ := toModule_eq_ok_iff.1 h
  rw [Publication.module_prepare_ofTrees, ofModule_ofTrees, publicized, ← Tree.mapAll_eq,
    Tree.mapAll_mapNestedAll]
  congr 1
  exact Tree.mapNestedAll_traverse (fun nested _ _ hentry =>
    TypeEntry.ofDecl_publicized (keeps_guardOf hdecls settings) hentry _ nested) hdecls false

/-- A document has a module exactly if every accessor that a property names is a method of the
type. -/
theorem toModule_isOk_iff (document : Document) :
    (∃ m, document.toModule = .ok m) ↔ ¬ document.HasUnknownAccessor := by
  have hdecl : ¬ document.HasUnknownAccessor ↔
      ∀ entry ∈ document.entries, ∃ decl, entry.toDecl = .ok decl := by
    simp only [HasUnknownAccessor, TypeEntry.toDecl_isOk_iff, not_exists, not_and]
  rw [hdecl]
  constructor
  · -- each entry stands in the trees, and each node of them was declared
    rintro ⟨m, hm⟩ entry hentry
    obtain ⟨decls, hdecls, -⟩ := toModule_eq_ok_iff.1 hm
    have hmap := List.mem_map_of_mem (f := TypeEntry.toDecl) hentry
    rw [entries, Tree.preorderAll_traverse hdecls, List.mem_map] at hmap
    obtain ⟨decl, -, hdecl⟩ := hmap
    exact ⟨decl, hdecl.symm⟩
  · intro hall
    obtain ⟨decls, hdecls⟩ := Tree.exists_traverse hall
    exact ⟨_, toModule_eq_ok_iff.2 ⟨decls, hdecls, rfl⟩⟩

/-- A document that has no module names an accessor that its type does not have: no type ever loses
its parent. -/
theorem ne_lostParent_of_toModule {document : Document} {fault : Fault}
    (h : document.toModule = .error fault) : fault ≠ .lostParent := by
  rw [toModule_eq, mapError_eq_error_iff] at h
  obtain ⟨unknown, -, rfl⟩ := h
  nofun

/-- Preparing the module of a document is making the document public, and a document has no module
exactly if some property names an accessor that its type does not have. -/
theorem toModule_prepare (settings : PromotionSettings) (document : Document) :
    match document.toModule with
    | .error fault => fault ≠ .lostParent ∧ document.HasUnknownAccessor
    | .ok m => ¬ document.HasUnknownAccessor ∧
        ofModule (Publication.prepare settings m).module = document.publicized settings := by
  have hiff := toModule_isOk_iff document
  split
  · next fault h => exact ⟨ne_lostParent_of_toModule h, by simpa [h] using hiff⟩
  · next m h => exact ⟨hiff.1 ⟨m, h⟩, ofModule_prepare h settings⟩

end Document

end PublicAssembly
