import PublicAssembly.Bytes.Basic
import PublicAssembly.Symbol.Visibility

/-!
# Members of a type

Methods, fields, properties and events as a module holds them. A flag word is kept apart from the
access that its low bits say, and `flags` puts the two together again.
-/

namespace PublicAssembly

/-- The code of a method. -/
structure MethodBody where
  /-- The address of the body in the image it was read from, 0 when there is none. -/
  rva : UInt32
  /-- The instructions, without the header of the body. -/
  code : Bytes
  deriving DecidableEq, Repr

/-- A method. -/
structure MethodDecl where
  /-- The row of the method in the image it was read from. -/
  token : Option UInt32 := none
  /-- The name. -/
  name : String
  /-- Who may use the method. -/
  access : Access
  /-- The flag word; its low three bits do not count. -/
  attributes : UInt16 := 0
  /-- How the method is implemented. -/
  implAttributes : UInt16 := 0
  /-- The return type as it is written. -/
  returnType : String := "void"
  /-- The code, if the method has any. -/
  body : Option MethodBody := none
  deriving DecidableEq, Repr

/-- A field. -/
structure FieldDecl where
  /-- The row of the field in the image it was read from. -/
  token : Option UInt32 := none
  /-- The name. -/
  name : String
  /-- Who may use the field. -/
  access : Access
  /-- The flag word; its low three bits do not count. -/
  attributes : UInt16 := 0
  deriving DecidableEq, Repr

/-- A property, with the places of its accessors among the methods of the same type. -/
structure PropertyDecl where
  /-- The name. -/
  name : String
  /-- The method that reads the property. -/
  getter : Option Nat := none
  /-- The method that writes the property. -/
  setter : Option Nat := none
  deriving DecidableEq, Repr

/-- A flag word of two bytes with the given low bits. -/
def memberFlags (attributes : UInt16) (access : Access) : UInt16 :=
  .ofNat (withLow attributes.toNat access.bits)

namespace MethodDecl

/-- Everyone may use the method. -/
def isPublic (method : MethodDecl) : Bool :=
  method.access == .publicMember

/-- The whole flag word. -/
def flags (method : MethodDecl) : UInt16 :=
  memberFlags method.attributes method.access

end MethodDecl

namespace FieldDecl

/-- Everyone may use the field. -/
def isPublic (field : FieldDecl) : Bool :=
  field.access == .publicMember

/-- The whole flag word. -/
def flags (field : FieldDecl) : UInt16 :=
  memberFlags field.attributes field.access

end FieldDecl

end PublicAssembly
