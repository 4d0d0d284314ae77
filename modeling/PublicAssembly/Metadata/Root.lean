import PublicAssembly.Bytes.Cursor
import PublicAssembly.Metadata.Layout

/-!
# The metadata root

The root lists the streams of the metadata by name. Three of them matter here: the tables, the
string heap and the blob heap. A stream that is listed twice counts at its last place.
-/

namespace PublicAssembly

open Image (Fault)

namespace Metadata

/-- The number with which the metadata root begins. -/
def signature : Nat := 0x424A5342

/-- The greatest number of bytes of a stream name. -/
def maxStreamName : Nat := 32

/-- What the header of a stream says. -/
structure StreamHeader where
  /-- The offset of the stream from the metadata root. -/
  offset : Nat
  /-- The number of bytes of the stream. -/
  size : Nat
  /-- The bytes of the name. -/
  name : List UInt8
  deriving DecidableEq, Repr

/-- The bytes from `offset` up to the zero that ends a stream name, when at most `limit` bytes
come before it. -/
def readStreamName (data : Bytes) : (limit : Nat) → (offset : Nat) → Except Fault (List UInt8)
  | limit, offset => do
    let b ← data.byte offset
    if b = 0 then
      return []
    else
      match limit with
      | 0 => throw (.malformed .streamNameTooLong)
      | limit + 1 =>
        let rest ← readStreamName data limit (offset + 1)
        return b :: rest

/-- The number of bytes of a name of `length` bytes with its terminator, filled up to a multiple of
four. -/
def paddedNameSize (length : Nat) : Nat :=
  (length + 4) / 4 * 4

/-- Read the stream header at `offset`, and say where the next one begins. -/
def StreamHeader.read (data : Bytes) (offset : Nat) : Except Fault (StreamHeader × Nat) := do
  let start ← data.number offset 4
  let size ← data.number (offset + 4) 4
  let name ← readStreamName data maxStreamName (offset + 8)
  return (⟨start, size, name⟩, offset + 8 + paddedNameSize name.length)

/-- The streams found so far. -/
structure Streams where
  /-- The offset of the table stream in the file. -/
  tables : Option Nat
  /-- The string heap. -/
  strings : Bytes
  /-- The blob heap. -/
  blobs : Bytes

namespace Streams

/-- No stream found, and empty heaps. -/
def empty : Streams :=
  ⟨none, #[], #[]⟩

/-- The bytes of an ASCII name. -/
def nameBytes (name : String) : List UInt8 :=
  name.toList.map fun c => UInt8.ofNat c.toNat

/-- Take in a stream of metadata whose root is at `root`. -/
def add (data : Bytes) (root : Nat) (found : Streams) (header : StreamHeader) :
    Except Fault Streams := do
  -- every stream has to lie in the data, also one that is not used
  let body ← data.slice (root + header.offset) header.size
  if header.name = nameBytes "#~" then
    return { found with tables := some (root + header.offset) }
  else if header.name = nameBytes "#-" then
    throw (.unsupported .editTables)
  else if header.name = nameBytes "#Strings" then
    return { found with strings := body }
  else if header.name = nameBytes "#Blob" then
    return { found with blobs := body }
  else
    return found

/-- Take in `count` streams whose headers begin at `offset`. -/
def readFrom (data : Bytes) (root : Nat) : (count offset : Nat) → Streams → Except Fault Streams
  | 0, _, found => .ok found
  | count + 1, offset, found => do
    let (header, next) ← StreamHeader.read data offset
    let found ← found.add data root header
    readFrom data root count next found

/-- The streams of the metadata whose root is at `root`. -/
def read (data : Bytes) (root : Nat) : Except Fault Streams := do
  let mark ← data.number root 4
  if mark ≠ signature then
    throw (.notManaged .missingMetadataSignature)
  let versionLength ← data.number (root + 12) 4
  let afterVersion := root + 16 + versionLength
  let count ← data.number (afterVersion + 2) 2
  readFrom data root count (afterVersion + 4) empty

end Streams

end Metadata

/-- The metadata of a module: the layout of its tables, and its heaps. -/
structure Metadata where
  /-- The file that holds the metadata. -/
  data : Bytes
  /-- Where the tables lie in the file. -/
  layout : Metadata.Layout
  /-- The string heap. -/
  strings : Bytes
  /-- The blob heap. -/
  blobs : Bytes
  deriving DecidableEq

namespace Metadata

/-- Read the metadata whose root is at `root`. -/
def read (data : Bytes) (root : Nat) : Except Fault Metadata := do
  let streams ← Streams.read data root
  match streams.tables with
  | none => throw (.notManaged .noTableStream)
  | some start =>
    let layout ← Layout.read data start
    return ⟨data, layout, streams.strings, streams.blobs⟩

/-- The number of rows of a table. -/
def rows (md : Metadata) (table : Table) : Nat :=
  md.layout.rows table

/-- The number stored in a cell. -/
def cell (md : Metadata) (table : Table) (row column : Nat) : Except Fault Nat := do
  let (offset, width) ← md.layout.cell table row column
  md.data.number offset width

/-- The place of the first zero at `offset` or after it, when one of the next `limit` bytes is
zero. -/
def findZero (data : Bytes) : (limit offset : Nat) → Option Nat
  | 0, _ => none
  | limit + 1, offset =>
    if data[offset]? = some 0 then some offset else findZero data limit (offset + 1)

/-- The string at an index of the string heap. Without a heap, index 0 is the empty string. -/
def string (md : Metadata) (index : Nat) : Except Fault String :=
  if index = 0 ∧ md.strings.size = 0 then .ok ""
  else if md.strings.size < index then .error (.malformed (.stringOutside index))
  else
    match findZero md.strings (md.strings.size - index) index with
    | none => .error (.malformed (.stringUnterminated index))
    | some stop =>
      match String.fromUTF8? ⟨md.strings.extract index stop⟩ with
      | none => .error (.malformed (.stringNotUtf8 index))
      | some text => .ok text

/-- The bytes at an index of the blob heap, behind their compressed length. Without a heap, index 0
is the empty blob. -/
def blob (md : Metadata) (index : Nat) : Except Fault Bytes :=
  if index = 0 ∧ md.blobs.size = 0 then .ok #[]
  else if md.blobs.size < index then .error (.malformed (.blobOutside index))
  else
    -- a compressed integer takes four bytes at most
    match (Cursor.start (md.blobs.extract index (index + 4)).toList).compressed with
    | .error fault => .error fault
    | .ok (length, cursor) =>
      let first := index + cursor.position
      if first + length ≤ md.blobs.size then .ok (md.blobs.extract first (first + length))
      else .error (.truncated cursor.position length)

end Metadata

end PublicAssembly
