import PublicAssembly.Document.Basic
import PublicAssembly.Log.Line
import PublicAssembly.Module.Forest

/-!
# Documents and modules

A document becomes a module by attaching its types in pre-order and looking up the accessors that its
properties name; a module becomes a document by putting the types back into trees. A method has
no row after that, and of several methods of one name an accessor is always the first.

Neither way recurses into the trees. The types of a document wait on a stack (`attachPending`). The
types of a module stand in a table, from which each is taken by the type around it, the last in
pre-order first (`nestAt`). That both follow the trees is proved of them.
-/

namespace PublicAssembly

/-- A property that names an accessor which is no method of its type. -/
structure UnknownAccessor where
  /-- The full name of the type. -/
  typeName : String
  /-- The name of the property. -/
  property : String
  /-- The name that no method has. -/
  accessor : String
  deriving DecidableEq, Repr

/-- The wording of an unknown accessor. -/
def UnknownAccessor.message (unknown : UnknownAccessor) : String :=
  s!"property {unknown.typeName}.{unknown.property} names unknown accessor {unknown.accessor}"

namespace MethodEntry

/-- The method that an entry describes. -/
def toDecl (entry : MethodEntry) : MethodDecl :=
  { name := entry.name
    access := entry.access
    attributes := entry.attributes
    implAttributes := entry.implAttributes
    returnType := entry.returnType
    body := entry.body }

/-- The entry of a method. -/
def ofDecl (method : MethodDecl) : MethodEntry :=
  { name := method.name
    access := method.access
    attributes := method.attributes
    implAttributes := method.implAttributes
    returnType := method.returnType
    body := method.body }

@[simp]
theorem ofDecl_toDecl (entry : MethodEntry) : ofDecl entry.toDecl = entry := rfl

end MethodEntry

namespace FieldEntry

/-- The field that an entry describes. -/
def toDecl (entry : FieldEntry) : FieldDecl :=
  { name := entry.name, access := entry.access, attributes := entry.attributes }

/-- The entry of a field. -/
def ofDecl (field : FieldDecl) : FieldEntry :=
  { name := field.name, access := field.access, attributes := field.attributes }

@[simp]
theorem ofDecl_toDecl (entry : FieldEntry) : ofDecl entry.toDecl = entry := rfl

end FieldEntry

namespace TypeEntry

/-- The type that an entry describes, apart from its properties. -/
def declWithoutProperties (entry : TypeEntry) : TypeDecl :=
  { name := entry.name
    namespaceName := entry.namespaceName
    visibility := entry.visibility
    attributes := entry.attributes
    methods := entry.methods.map MethodEntry.toDecl
    fields := entry.fields.map FieldEntry.toDecl
    events := entry.events }

/-- The place of the accessor of a property among the methods of its type. -/
def findAccessor (decl : TypeDecl) (property : String) :
    Option String → Except UnknownAccessor (Option Nat)
  | none => .ok none
  | some accessor =>
    match decl.findMethod? accessor with
    | some place => .ok (some place)
    | none => .error ⟨decl.fullName, property, accessor⟩

/-- The property that an entry describes. -/
def propertyDecl (decl : TypeDecl) (entry : PropertyEntry) :
    Except UnknownAccessor PropertyDecl := do
  let getter ← findAccessor decl entry.name entry.getter
  let setter ← findAccessor decl entry.name entry.setter
  return ⟨entry.name, getter, setter⟩

/-- The type that an entry describes. -/
def toDecl (entry : TypeEntry) : Except UnknownAccessor TypeDecl := do
  let decl := entry.declWithoutProperties
  let properties ← entry.properties.mapM (propertyDecl decl)
  return { decl with properties }

/-- The name of the method at a place, if there is one. -/
def accessorName (decl : TypeDecl) (place : Option Nat) : Option String :=
  (place.bind fun i => decl.methods[i]?).map MethodDecl.name

/-- The entry of a type. -/
def ofDecl (decl : TypeDecl) : TypeEntry :=
  { name := decl.name
    namespaceName := decl.namespaceName
    visibility := decl.visibility
    attributes := decl.attributes
    methods := decl.methods.map MethodEntry.ofDecl
    fields := decl.fields.map FieldEntry.ofDecl
    properties := decl.properties.map fun property =>
      ⟨property.name, accessorName decl property.getter, accessorName decl property.setter⟩
    events := decl.events }

end TypeEntry

namespace Document

/-! ### The module of a document -/

/-- Why a document has no module. -/
inductive Fault where
  /-- A property names an accessor that is no method of its type. -/
  | accessor (unknown : UnknownAccessor)
  /-- The type around a nested type is not there. -/
  | lostParent
  deriving DecidableEq, Repr

/-- The wording of why a document has no module. -/
def Fault.message : Fault → String
  | accessor unknown => unknown.message
  | lostParent => "nested type lost its parent"

/-- Types that wait to be attached, the next one on top, each with the type that it is nested in. -/
abbrev Pending := List (Option Nat × Tree TypeEntry)

/-- Put types on a stack, from the last one to the first. -/
def push (parent : Option Nat) (types : List (Tree TypeEntry)) (pending : Pending) : Pending :=
  types.reverse.foldl (fun pending type => (parent, type) :: pending) pending

/-- The types that were put on a stack lie there in order. -/
theorem push_eq (parent : Option Nat) (types : List (Tree TypeEntry)) (pending : Pending) :
    push parent types pending = types.map (parent, ·) ++ pending := by
  rw [push, List.foldl_reverse, List.foldr_cons_eq_append]

/-- Attach a type at the top, or under a type that must be there. -/
def attachType (m : Module) (decl : TypeDecl) : Option Nat → Except Fault Module
  | none => .ok (m.addRoot decl)
  | some parent =>
    match m.addNested? parent decl with
    | some m => .ok m
    | none => .error .lostParent

/-- Attach the types of a stack: the type on top is attached, and the types nested in it are put on
the stack. -/
def attachPending : Pending → Module → Except Fault Module
  | [], m => .ok m
  | (parent, .node entry nested) :: pending, m => do
    let decl ← entry.toDecl.mapError .accessor
    let id := m.nextId
    let m ← attachType m decl parent
    attachPending (push (some id) nested pending) m
termination_by pending => Tree.count (pending.map Prod.snd)
decreasing_by
  rw [push_eq, List.map_append, List.map_map, Function.comp_def, List.map_id', List.map_cons,
    Tree.count_append, Tree.count_node_cons]
  omega

/-- The module that a document describes. -/
def toModule (document : Document) : Except Fault Module :=
  attachPending (push none document.types []) (Module.empty document.name)

/-- The types of a document in the order in which they are attached. -/
def entries (document : Document) : List TypeEntry :=
  Tree.preorderAll document.types

/-- What the log says about some types that are attached: one line for each up to the first that
cannot be. -/
def attachLines : List TypeEntry → List LogLine
  | [] => []
  | entry :: rest =>
    match entry.toDecl with
    | .ok decl => .debug s!"Loaded type {decl.fullName}" :: attachLines rest
    | .error _ => []

/-- What the log says when a document becomes a module. -/
def moduleLines (document : Document) : List LogLine :=
  attachLines document.entries

/-! ### The document of a module -/

/-- The types of a module as trees, each at its id until it is taken away. -/
abbrev TypeTable := Array (Option (Tree TypeEntry))

/-- Take the types of some ids away, as far as they are there. An id behind the end has no type; the
ids that a module links to are never beyond it. -/
def takeAll (table : TypeTable) : List Nat → List (Tree TypeEntry) × TypeTable
  | [] => ([], table)
  | id :: ids =>
    let (types, left) := takeAll (table.setIfInBounds id none) ids
    ((table.getD id none).toList ++ types, left)

/-- The type of the first id is taken away before the types of the others. -/
theorem takeAll_cons (table : TypeTable) (id : Nat) (ids : List Nat) :
    takeAll table (id :: ids) =
      ((table.getD id none).toList ++ (takeAll (table.setIfInBounds id none) ids).1,
        (takeAll (table.setIfInBounds id none) ids).2) := rfl

/-- Give the type of an id the types nested in it, which are taken away. -/
def nestAt (m : Module) (table : TypeTable) (id : Nat) : TypeTable :=
  match m.get? id with
  | none => table
  | some decl =>
    let (nested, left) := takeAll table decl.nested.toList
    left.modify id (Option.map fun type => .node type.value nested)

/-- The document of a module. In reverse pre-order, a type has all its nested types before it is
nested itself. -/
def ofModule (m : Module) : Document :=
  let table : TypeTable := m.types.map fun decl => some (.node (.ofDecl decl) [])
  let filled := m.flatten.reverse.foldl (nestAt m) table
  ⟨m.name, (takeAll filled m.roots.toList).1⟩

end Document

end PublicAssembly
