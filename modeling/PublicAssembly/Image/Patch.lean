import PublicAssembly.Image.Load

/-!
# Patching an image

A module is written back into the image it came from by overwriting cells of fixed width: the flags
of types, fields and methods, and the header of each body whose code was emptied. Everything else
stays, so a module with other rows or with changed code cannot be written.

The changes are collected first (`patches`) and then applied in order.
-/

namespace PublicAssembly.Image

open Metadata (Table)

/-- A change of some bytes of a file. -/
inductive Patch where
  /-- The flag word of a type at an offset. -/
  | typeFlags (offset : Nat) (flags : UInt32)
  /-- The flag word of a field or method at an offset. -/
  | memberFlags (offset : Nat) (flags : UInt16)
  /-- A body at an offset that becomes a tiny one without code. -/
  | emptyBody (offset : Nat)
  deriving DecidableEq, Repr

namespace Patch

/-- The offset of the first changed byte. -/
def offset : Patch → Nat
  | typeFlags offset _ => offset
  | memberFlags offset _ => offset
  | emptyBody offset => offset

/-- The new bytes. -/
def bytes : Patch → List UInt8
  | typeFlags _ flags => Bytes.littleEndianBytes 4 flags.toNat
  | memberFlags _ flags => Bytes.littleEndianBytes 2 flags.toNat
  | emptyBody _ => [Body.emptyHeader]

/-- The patch empties a body. -/
def emptiesBody : Patch → Bool
  | emptyBody _ => true
  | _ => false

/-- The file after the change. -/
def apply (data : Bytes) (patch : Patch) : Bytes :=
  data.overwrite patch.offset patch.bytes

/-- A change keeps the size of the file. -/
@[simp]
theorem size_apply (data : Bytes) (patch : Patch) : (patch.apply data).size = data.size := by
  simp [apply]

end Patch

/-- The offset of a cell of the row that a token names. -/
def tokenCell (image : Image) (token : UInt32) (table : Table) (column : Nat) :
    Except Fault (Nat × Nat) := do
  let row ← tokenRow token table
  let (offset, _) ← image.metadata.layout.cell table row column
  return (row, offset)

/-- The change that writes back a field. -/
def fieldPatch (image : Image) (field : FieldDecl) : Except Fault Patch := do
  match field.token with
  | none => throw (.unsupported (.fieldWithoutRow field.name))
  | some token =>
    let (_, offset) ← image.tokenCell token Table.field 0
    return .memberFlags offset field.flags

/-- The change that writes back the code of the method in a row, if one is needed. Code can only stay
or be emptied. -/
def bodyPatch (image : Image) (row : Nat) (name : String) (body : MethodBody) :
    Except Fault (Option Patch) := do
  let rva ← image.cell Table.methodDef row 0
  -- without a body in the file there is no room for one
  if rva = 0 then
    if body.code.isEmpty then
      return none
    else
      throw (.unsupported (.gainedBody name))
  else
    let (place, code) ← image.bodyAt rva
    if code = body.code then
      return none
    else if body.code.isEmpty then
      -- the header alone changes, and the code stays behind it
      return some (.emptyBody place.headerOffset)
    else
      throw (.unsupported (.changedBody name))

/-- The changes that write back a method. -/
def methodPatches (image : Image) (method : MethodDecl) : Except Fault (List Patch) := do
  match method.token with
  | none => throw (.unsupported (.methodWithoutRow method.name))
  | some token =>
    let (row, offset) ← image.tokenCell token Table.methodDef 2
    let flags := Patch.memberFlags offset method.flags
    match method.body with
    | none => return [flags]
    | some body =>
      let emptied ← image.bodyPatch row method.name body
      return flags :: emptied.toList

/-- The changes that write back a type with its members. -/
def typePatches (image : Image) (decl : TypeDecl) : Except Fault (List Patch) := do
  match decl.token with
  | none => throw (.unsupported (.typeWithoutRow decl.fullName))
  | some token =>
    let (_, offset) ← image.tokenCell token Table.typeDef 0
    let fields ← decl.fields.mapM image.fieldPatch
    let methods ← decl.methods.mapM image.methodPatches
    return .typeFlags offset decl.flags :: (fields ++ methods.flatten)

/-- The changes that write back a module, in order. -/
def patches (image : Image) (m : Module) : Except Fault (List Patch) := do
  let types ← m.types.toList.mapM image.typePatches
  return types.flatten

/-- The file after some changes, one after another. -/
def applyAll (data : Bytes) (changes : List Patch) : Bytes :=
  changes.foldl (fun data change => change.apply data) data

/-- Changes keep the size of the file. -/
theorem size_applyAll (data : Bytes) (changes : List Patch) :
    (applyAll data changes).size = data.size := by
  induction changes generalizing data with
  | nil => rfl
  | cons change changes ih =>
    rw [applyAll, List.foldl_cons]
    exact (ih _).trans (change.size_apply data)

/-- Write a module back into a file, and count the bodies that were emptied. -/
def patchCounted (m : Module) (data : Bytes) : Except Fault (Bytes × Nat) := do
  let image ← Image.read data
  let changes ← image.patches m
  return (applyAll data changes, changes.countP Patch.emptiesBody)

/-- Write a module back into a file. -/
def patch (m : Module) (data : Bytes) : Except Fault Bytes := do
  let (data, _) ← patchCounted m data
  return data

end PublicAssembly.Image
