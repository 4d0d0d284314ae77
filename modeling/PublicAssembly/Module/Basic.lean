import PublicAssembly.Symbol.TypeDecl

/-!
# Modules

A module keeps its types in an arena, in the order in which they were attached. A type is attached
either at the top or under a type that is there already; its links to other types are then set
afresh, whatever the value brought along.
-/

namespace PublicAssembly

/-- A module. -/
structure Module where
  /-- The name. -/
  name : String
  /-- The types; the id of a type is its place in this array. -/
  types : Array TypeDecl := #[]
  /-- The types at the top, in the order in which they were attached. -/
  roots : Array Nat := #[]
  /-- The file that the module was read from, if it is patched in place. -/
  image : Option Bytes := none
  deriving DecidableEq, Repr

namespace Module

/-- The module of the given name without types. -/
def empty (name : String) : Module :=
  { name }

/-- The number of types. -/
def size (m : Module) : Nat :=
  m.types.size

/-- The type of an id. -/
def get? (m : Module) (id : Nat) : Option TypeDecl :=
  m.types[id]?

/-- Change the type of an id; an unknown id changes nothing. -/
def modify (m : Module) (id : Nat) (f : TypeDecl → TypeDecl) : Module :=
  { m with types := m.types.modify id f }

/-- The id that the next attached type gets. -/
def nextId (m : Module) : Nat :=
  m.types.size

/-- Attach a type at the top. -/
def addRoot (m : Module) (decl : TypeDecl) : Module :=
  { m with
    types := m.types.push { decl with parent := none, nested := #[] }
    roots := m.roots.push m.nextId }

/-- Attach a type under `parent`, which must be a type of the module. -/
def addNested? (m : Module) (parent : Nat) (decl : TypeDecl) : Option Module :=
  if parent < m.types.size then
    let id := m.nextId
    some { m with
      types := (m.types.modify parent fun p => { p with nested := p.nested.push id }).push
        { decl with parent := some parent, nested := #[] } }
  else none

/-- Attach a type at the top or under a type of the module. An unknown parent changes nothing. -/
def attach (m : Module) : Option Nat → TypeDecl → Module
  | none, decl => m.addRoot decl
  | some parent, decl => (m.addNested? parent decl).getD m

/-- The module that brings along the file it was read from. -/
def withImage (m : Module) (image : Bytes) : Module :=
  { m with image := some image }

@[simp]
theorem size_empty (name : String) : (empty name).size = 0 := rfl

@[simp]
theorem size_addRoot (m : Module) (decl : TypeDecl) : (m.addRoot decl).size = m.size + 1 := by
  simp [addRoot, size]

/-- Attaching fails exactly under an unknown parent. -/
theorem addNested?_eq_none_iff {m : Module} {parent : Nat} {decl : TypeDecl} :
    m.addNested? parent decl = none ↔ m.size ≤ parent := by
  by_cases h : parent < m.types.size
  · simp [addNested?, size, h]
  · simp [addNested?, size, h, Nat.le_of_not_lt h]

end Module

end PublicAssembly
