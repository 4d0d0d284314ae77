import PublicAssembly.Module.Tree
import PublicAssembly.Symbol.Member

/-!
# Documents

A document describes a module by names alone: types hold the types nested in them, and a property
names its accessors. Rows of an image and ids have no place in a document.
-/

namespace PublicAssembly

/-- A method in a document. -/
structure MethodEntry where
  /-- The name. -/
  name : String
  /-- Who may use the method. -/
  access : Access
  /-- The flag word. -/
  attributes : UInt16 := 0
  /-- How the method is implemented. -/
  implAttributes : UInt16 := 0
  /-- The return type as it is written. -/
  returnType : String := "void"
  /-- The code, if the method has any. -/
  body : Option MethodBody := none
  deriving DecidableEq, Repr

/-- A field in a document. -/
structure FieldEntry where
  /-- The name. -/
  name : String
  /-- Who may use the field. -/
  access : Access
  /-- The flag word. -/
  attributes : UInt16 := 0
  deriving DecidableEq, Repr

/-- A property in a document, with the names of its accessors. -/
structure PropertyEntry where
  /-- The name. -/
  name : String
  /-- The name of the method that reads the property. -/
  getter : Option String := none
  /-- The name of the method that writes the property. -/
  setter : Option String := none
  deriving DecidableEq, Repr

/-- A type in a document, without the types nested in it. -/
structure TypeEntry where
  /-- The name. -/
  name : String
  /-- The namespace, empty for none. -/
  namespaceName : String := ""
  /-- Who may use the type. -/
  visibility : Visibility
  /-- The flag word. -/
  attributes : UInt32 := 0
  /-- The methods. -/
  methods : List MethodEntry := []
  /-- The fields. -/
  fields : List FieldEntry := []
  /-- The properties. -/
  properties : List PropertyEntry := []
  /-- The names of the events. -/
  events : List String := []
  deriving DecidableEq, Repr

/-- A document: a module with its types as trees. -/
structure Document where
  /-- The name of the module. -/
  name : String
  /-- The types at the top, each with the types nested in it. -/
  types : List (Tree TypeEntry) := []
  deriving Repr

end PublicAssembly
