import PublicAssembly.Image.Members
import PublicAssembly.Image.Nesting
import PublicAssembly.Log.Line
import PublicAssembly.Module.Forest
import PublicAssembly.Signature.Decode

/-!
# Loading a module from an image

The types of the image become the types of a module, each with the row it came from, so that the
module can be written back into the image. Types are attached in pre-order: a type before the types
nested in it, and those in the order of their rows.
-/

namespace PublicAssembly.Image

open Metadata (Table)

/-- The token of a row: the number of the table in the upper byte, the row in the others. -/
def token (table : Table) (row : Nat) : UInt32 :=
  .ofNat ((table <<< 24) ||| row)

/-- The row of a token that must belong to the table. -/
def tokenRow (token : UInt32) (table : Table) : Except Fault Nat :=
  if token.toNat >>> 24 = table then .ok (token.toNat % 1 <<< 24)
  else .error (.malformed (.foreignToken token.toNat table))

/-- The access of a member with the given flags. -/
def memberAccess (name : String) (flags : Nat) : Except Fault Access :=
  match Access.ofFlags? flags with
  | some access => .ok access
  | none => .error (.malformed (.reservedAccess name flags))

/-- A flag word of two bytes without its low bits. -/
def memberAttributes (flags : Nat) : UInt16 :=
  .ofNat (withLow flags 0)

/-- A flag word of four bytes without its low bits. -/
def typeAttributes (flags : Nat) : UInt32 :=
  .ofNat (withLow flags 0)

/-- The field of a row. -/
def fieldDecl (image : Image) (row : Nat) : Except Fault FieldDecl := do
  let flags ← image.cell Table.field row 0
  let name ← image.cellString Table.field row 1
  let access ← memberAccess name flags
  return {
    token := some (token Table.field row)
    name
    access
    attributes := memberAttributes flags }

/-- The code of a method whose row gives the address and the implementation flags. A method has code
if it has an address and the flags say that the code is for the managed machine. -/
def methodBody (image : Image) (rva implFlags : Nat) : Except Fault (Option MethodBody) :=
  if rva ≠ 0 ∧ implFlags % 4 = 0 then do
    let (_, code) ← image.bodyAt rva
    return some ⟨.ofNat rva, code⟩
  else .ok none

/-- The method of a row. -/
def methodDecl (image : Image) (row : Nat) : Except Fault MethodDecl := do
  let rva ← image.cell Table.methodDef row 0
  let implFlags ← image.cell Table.methodDef row 1
  let flags ← image.cell Table.methodDef row 2
  let name ← image.cellString Table.methodDef row 3
  let signature ← image.cell Table.methodDef row 4
  let blob ← image.metadata.blob signature
  let access ← memberAccess name flags
  let returnType ← PublicAssembly.returnType image.typeName blob.toList
  let body ← image.methodBody rva implFlags
  return {
    token := some (token Table.methodDef row)
    name
    access
    attributes := memberAttributes flags
    implAttributes := .ofNat implFlags
    returnType
    body }

/-- The type of a row, with its members. -/
def typeDecl (image : Image) (members : Membership) (accessors : Array Accessors) (row : Nat) :
    Except Fault TypeDecl := do
  let flags ← image.cell Table.typeDef row 0
  let name ← image.cellString Table.typeDef row 1
  let space ← image.cellString Table.typeDef row 2
  let fields ← (members.fieldRange row).rows.mapM image.fieldDecl
  let methods ← (members.methodRange row).rows.mapM image.methodDecl
  return {
    token := some (token Table.typeDef row)
    name
    namespaceName := space
    visibility := .ofFlags flags
    attributes := typeAttributes flags
    methods
    fields
    properties := (members.properties.getD row []).map fun property =>
      let found := accessors.getD property.row .empty
      ⟨property.name, found.getter, found.setter⟩
    events := (members.events.getD row []).map OwnedRow.name }

/-- The name of the module, empty if the image does not give one. -/
def moduleName (image : Image) : Except Fault String :=
  if 0 < image.rows Table.module then image.cellString Table.module 1 1 else .ok ""

/-- The module of an image whose members are known. -/
def loadTypes (image : Image) (name : String) (members : Membership) : Except Fault Module := do
  let enclosing ← image.enclosing
  let accessors := members.accessors
  let m ← Module.attachTree.attachTrees (image.typeDecl members accessors) none enclosing.forest
    (Module.empty name)
  let types := image.rows Table.typeDef
  if m.size ≠ types then
    throw (.malformed (.nestingCycle (types - m.size) types))
  return m.withImage image.data

/-- What is known of an image before its types are looked at one by one: the file with its
headers, the name of the module, and which rows are members of which type. -/
def survey (data : Bytes) : Except Fault (Image × String × Membership) := do
  let image ← Image.read data
  let name ← image.moduleName
  let members ← image.membership
  return (image, name, members)

/-- The module that a file holds. -/
def load (data : Bytes) : Except Fault Module := do
  let (image, name, members) ← survey data
  image.loadTypes name members

/-- What the log says about the loading of a file, whether it succeeds or not. -/
def loadLines (data : Bytes) : List LogLine :=
  match survey data with
  | .error _ => []
  | .ok (_, _, members) =>
    members.foreignAccessors.map fun method =>
      .debug s!"Ignoring accessor {method} declared outside its property's type"

end PublicAssembly.Image
