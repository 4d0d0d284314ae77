import PublicAssembly.Image.Sections
import PublicAssembly.Image.Body
import PublicAssembly.Metadata.Root

/-!
# Images

A managed image is a PE file whose headers lead to metadata. An `Image` is the file together with
both, read once.
-/

namespace PublicAssembly

open Image (Fault)

/-- A PE file with the metadata of a managed module. -/
structure Image where
  /-- The contents of the file. -/
  data : Bytes
  /-- Its PE headers. -/
  headers : Image.Headers
  /-- Its metadata. -/
  metadata : Metadata
  deriving DecidableEq

namespace Image

/-- Read the headers and the metadata of a file. -/
def read (data : Bytes) : Except Fault Image := do
  let headers ← Headers.read data
  let root ← headers.metadataOffset data
  let metadata ← Metadata.read data root
  return ⟨data, headers, metadata⟩

/-- The number of rows of a table. -/
def rows (image : Image) (table : Metadata.Table) : Nat :=
  image.metadata.rows table

/-- The number stored in a cell. -/
def cell (image : Image) (table : Metadata.Table) (row column : Nat) : Except Fault Nat :=
  image.metadata.cell table row column

/-- The string that a cell names. -/
def cellString (image : Image) (table : Metadata.Table) (row column : Nat) :
    Except Fault String := do
  let index ← image.cell table row column
  image.metadata.string index

/-- The method body at an address, and its code. -/
def bodyAt (image : Image) (rva : Nat) : Except Fault (Body × Bytes) := do
  let offset ← image.headers.offsetOf rva
  Body.read image.data offset

/-- The full name of a type of this module or another one; nothing for types given by signatures
and where the name cannot be read. -/
def typeName (image : Image) (table : Metadata.Table) (row : Nat) : Option String :=
  if table = Metadata.Table.typeDef ∨ table = Metadata.Table.typeRef then
    match image.cellString table row 1, image.cellString table row 2 with
    | .ok name, .ok space => some (if space.isEmpty then name else space ++ "." ++ name)
    | _, _ => none
  else none

end Image

end PublicAssembly
