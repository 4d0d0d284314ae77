import PublicAssembly.Symbol.Member

/-!
# Types

A type as a module holds it: its name, its flags, its members, and its place among the types that
are nested in one another.
-/

namespace PublicAssembly

/-- A type. -/
structure TypeDecl where
  /-- The row of the type in the image it was read from. -/
  token : Option UInt32 := none
  /-- The name. -/
  name : String
  /-- The namespace, empty for none. -/
  namespaceName : String := ""
  /-- Who may use the type. -/
  visibility : Visibility
  /-- The flag word; its low three bits do not count. -/
  attributes : UInt32 := 0
  /-- The methods. -/
  methods : List MethodDecl := []
  /-- The fields. -/
  fields : List FieldDecl := []
  /-- The properties. -/
  properties : List PropertyDecl := []
  /-- The names of the events. -/
  events : List String := []
  /-- The type that this one is nested in. -/
  parent : Option Nat := none
  /-- The types nested in this one. -/
  nested : Array Nat := #[]
  deriving DecidableEq, Repr

/-- A flag word of four bytes with the given low bits. -/
def typeFlags (attributes : UInt32) (visibility : Visibility) : UInt32 :=
  .ofNat (withLow attributes.toNat visibility.bits)

namespace TypeDecl

/-- The type is nested in another one. -/
def isNested (decl : TypeDecl) : Bool :=
  decl.parent.isSome

/-- The type stands at the top and everyone may use it. -/
def isPublic (decl : TypeDecl) : Bool :=
  decl.visibility == .publicType

/-- Everyone who may use the enclosing type may use this one. -/
def isNestedPublic (decl : TypeDecl) : Bool :=
  decl.visibility == .nestedPublic

/-- The whole flag word. -/
def flags (decl : TypeDecl) : UInt32 :=
  typeFlags decl.attributes decl.visibility

/-- The name behind its namespace. -/
def fullName (decl : TypeDecl) : String :=
  if decl.namespaceName.isEmpty then decl.name else decl.namespaceName ++ "." ++ decl.name

/-- The place of the first method of the given name. -/
def findMethod? (decl : TypeDecl) (name : String) : Option Nat :=
  decl.methods.findIdx? fun method => method.name == name

end TypeDecl

end PublicAssembly
