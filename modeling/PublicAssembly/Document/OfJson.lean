import PublicAssembly.Document.Basic
import PublicAssembly.Json.Decode

/-!
# Reading documents

The records of a document as JSON. Names, visibilities and the code of a body must be given;
everything else has a default. Containers are nested at most `Document.maxDepth` deep.
-/

namespace PublicAssembly

open Json (Decoder)
open Json.Decoder

/-- Read the code of a method. -/
def MethodBody.decode : Decoder MethodBody
  | room + 1, json =>
    match fields? ["rva", "code"] json with
    | some [rva, code] => do
      let rva ← orElse doubleWord 0 room rva
      let code ← required (list byte) room code
      return ⟨rva, code.toArray⟩
    | _ => none
  | 0, _ => none

/-- Read a method. -/
def MethodEntry.decode : Decoder MethodEntry
  | room + 1, json =>
    match fields? ["name", "access", "attributes", "impl_attributes", "return_type", "body"]
      json with
    | some [name, access, attributes, implAttributes, returnType, body] => do
      let name ← required text room name
      let access ← required (keyword Access.ofKey?) room access
      let attributes ← orElse word 0 room attributes
      let implAttributes ← orElse word 0 room implAttributes
      let returnType ← orElse text "void" room returnType
      let body ← orElse (optional MethodBody.decode) none room body
      return { name, access, attributes, implAttributes, returnType, body }
    | _ => none
  | 0, _ => none

/-- Read a field. -/
def FieldEntry.decode : Decoder FieldEntry
  | room + 1, json =>
    match fields? ["name", "access", "attributes"] json with
    | some [name, access, attributes] => do
      let name ← required text room name
      let access ← required (keyword Access.ofKey?) room access
      let attributes ← orElse word 0 room attributes
      return { name, access, attributes }
    | _ => none
  | 0, _ => none

/-- Read a property. -/
def PropertyEntry.decode : Decoder PropertyEntry
  | room + 1, json =>
    match fields? ["name", "getter", "setter"] json with
    | some [name, getter, setter] => do
      let name ← required text room name
      let getter ← orElse (optional text) none room getter
      let setter ← orElse (optional text) none room setter
      return { name, getter, setter }
    | _ => none
  | 0, _ => none

/-- Read the name of an event. -/
def decodeEvent : Decoder String
  | room + 1, json =>
    match fields? ["name"] json with
    | some [name] => required text room name
    | _ => none
  | 0, _ => none

/-- The names of the fields of a type. -/
def TypeEntry.keys : List String := [
  "name", "namespace", "visibility", "attributes", "methods", "fields", "properties", "events",
  "nested_types"]

/-- Read a type with the types nested in it. -/
def TypeEntry.decode : Decoder (Tree TypeEntry)
  | room + 1, json =>
    match fields? TypeEntry.keys json with
    | some [name, namespaceName, visibility, attributes, methods, fields, properties, events,
        nested] => do
      let name ← required text room name
      let namespaceName ← orElse text "" room namespaceName
      let visibility ← required (keyword Visibility.ofKey?) room visibility
      let attributes ← orElse doubleWord 0 room attributes
      let methods ← orElse (list MethodEntry.decode) [] room methods
      let fields ← orElse (list FieldEntry.decode) [] room fields
      let properties ← orElse (list PropertyEntry.decode) [] room properties
      let events ← orElse (list decodeEvent) [] room events
      -- the list takes one container, and each type in it another
      let children ← match nested, room with
        | none, _ => some []
        | some (.array items), inner + 1 => items.mapM (decode inner)
        | some _, _ => none
      return .node
        { name, namespaceName, visibility, attributes, methods, fields, properties, events }
        children
    | _ => none
  | 0, _ => none

namespace Document

/-- Read a document. -/
def decode : Decoder Document
  | room + 1, json =>
    match fields? ["name", "types"] json with
    | some [name, types] => do
      let name ← required text room name
      let types ← orElse (list TypeEntry.decode) [] room types
      return { name, types }
    | _ => none
  | 0, _ => none

/-- How deep containers may be nested. -/
def maxDepth : Nat :=
  127

/-- The document of a JSON value. -/
def ofJson? (json : Json) : Option Document :=
  decode maxDepth json

end Document

end PublicAssembly
