import PublicAssembly.Document.Basic
import PublicAssembly.Json.Writer

/-!
# Writing documents

The records of a document as JSON. Every field is written, an absent value as null; only an empty
namespace is left out.
-/

namespace PublicAssembly

open Json (ofText ofMembers)

/-- The JSON value of the code of a method. -/
def MethodBody.toJson (body : MethodBody) : Json :=
  ofMembers [
    ("rva", .ofNat body.rva.toNat),
    ("code", .array (body.code.toList.map fun b => .ofNat b.toNat))]

/-- The JSON value of something that may be absent. -/
def Json.ofOption {α : Type} (toJson : α → Json) : Option α → Json
  | some x => toJson x
  | none => .null

/-- The JSON value of a method. -/
def MethodEntry.toJson (entry : MethodEntry) : Json :=
  ofMembers [
    ("name", ofText entry.name),
    ("access", ofText entry.access.key),
    ("attributes", .ofNat entry.attributes.toNat),
    ("impl_attributes", .ofNat entry.implAttributes.toNat),
    ("return_type", ofText entry.returnType),
    ("body", .ofOption MethodBody.toJson entry.body)]

/-- The JSON value of a field. -/
def FieldEntry.toJson (entry : FieldEntry) : Json :=
  ofMembers [
    ("name", ofText entry.name),
    ("access", ofText entry.access.key),
    ("attributes", .ofNat entry.attributes.toNat)]

/-- The JSON value of a property. -/
def PropertyEntry.toJson (entry : PropertyEntry) : Json :=
  ofMembers [
    ("name", ofText entry.name),
    ("getter", .ofOption ofText entry.getter),
    ("setter", .ofOption ofText entry.setter)]

/-- The JSON value of an event. -/
def eventToJson (name : String) : Json :=
  ofMembers [("name", ofText name)]

namespace TypeEntry

/-- The members of a type, given the JSON values of the types nested in it. -/
def members (entry : TypeEntry) (nested : List Json) : List (String × Json) :=
  [("name", ofText entry.name)] ++
  (if entry.namespaceName.isEmpty then []
    else [("namespace", ofText entry.namespaceName)]) ++ [
    ("visibility", ofText entry.visibility.key),
    ("attributes", .ofNat entry.attributes.toNat),
    ("methods", .array (entry.methods.map MethodEntry.toJson)),
    ("fields", .array (entry.fields.map FieldEntry.toJson)),
    ("properties", .array (entry.properties.map PropertyEntry.toJson)),
    ("events", .array (entry.events.map eventToJson)),
    ("nested_types", .array nested)]

mutual

/-- The JSON value of a type with the types nested in it. -/
def treeToJson : Tree TypeEntry → Json
  | .node entry children => ofMembers (entry.members (treesToJson children))

/-- The JSON values of some types with the types nested in them. -/
def treesToJson : List (Tree TypeEntry) → List Json
  | [] => []
  | tree :: rest => treeToJson tree :: treesToJson rest

end

end TypeEntry

/-- The JSON value of a document. -/
def Document.toJson (document : Document) : Json :=
  ofMembers [
    ("name", ofText document.name),
    ("types", .array (TypeEntry.treesToJson document.types))]

/-- The text of a document. -/
def Document.render (document : Document) : String :=
  document.toJson.render

end PublicAssembly
