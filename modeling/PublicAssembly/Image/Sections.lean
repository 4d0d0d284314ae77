import PublicAssembly.Bytes.Basic

/-!
# PE headers

A PE file names its parts by relative virtual addresses. The section headers say which addresses
the file stores and where; one data directory gives the address of the CLI header, and that header
the address of the metadata.
-/

namespace PublicAssembly.Image

/-- Where a section lies in memory and in the file. -/
structure Section where
  /-- The address of its first byte. -/
  address : Nat
  /-- The number of bytes in memory. -/
  size : Nat
  /-- The number of bytes in the file. -/
  storedSize : Nat
  /-- The offset of its first byte in the file. -/
  storedAt : Nat
  deriving DecidableEq, Repr

/-- The number of addresses that belong to the section. -/
def Section.span (s : Section) : Nat :=
  max s.size s.storedSize

/-- The address belongs to the section. -/
def Section.Holds (s : Section) (rva : Nat) : Prop :=
  s.address ≤ rva ∧ rva - s.address < s.span

instance (s : Section) (rva : Nat) : Decidable (s.Holds rva) :=
  inferInstanceAs (Decidable (_ ∧ _))

/-- What the headers of a PE file say about its managed part. -/
structure Headers where
  /-- The sections, in the order of their headers. -/
  sections : List Section
  /-- The address of the CLI header. -/
  cliHeader : Nat
  deriving DecidableEq, Repr

namespace Headers

/-- The number of the data directory that names the CLI header. -/
def cliDirectory : Nat := 14

/-- The number of bytes of a section header. -/
def sectionHeaderSize : Nat := 40

/-- The letters with which a DOS header begins. -/
def dosMark : List UInt8 := [0x4D, 0x5A]

/-- The four bytes with which the PE headers begin. -/
def peMark : List UInt8 := [0x50, 0x45, 0x00, 0x00]

/-- Read `count` section headers from `offset` on. -/
def readSections (data : Bytes) : (count offset : Nat) → Except Fault (List Section)
  | 0, _ => .ok []
  | count + 1, offset => do
    let size ← data.number (offset + 8) 4
    let address ← data.number (offset + 12) 4
    let storedSize ← data.number (offset + 16) 4
    let storedAt ← data.number (offset + 20) 4
    let rest ← readSections data count (offset + sectionHeaderSize)
    return ⟨address, size, storedSize, storedAt⟩ :: rest

/-- The offset from the optional header of the data directories, by the mark with which the
optional header begins. -/
def directoriesOffset (mark : Nat) : Except Fault Nat :=
  if mark = 0x10B then .ok 96
  else if mark = 0x20B then .ok 112
  else .error (.notPe .unknownOptionalHeader)

/-- Read the headers of a PE file. -/
def read (data : Bytes) : Except Fault Headers := do
  if (data.extract 0 2).toList ≠ dosMark then
    throw (.notPe .missingDosMark)
  let pe ← data.number 0x3C 4
  let mark ← data.slice pe 4
  if mark.toList ≠ peMark then
    throw (.notPe .missingSignature)
  let coff := pe + 4
  let sectionCount ← data.number (coff + 2) 2
  let optionalSize ← data.number (coff + 16) 2
  -- the size of the optional header is needed for the sections, which come behind it
  let optional := coff + 20
  let optionalMark ← data.number optional 2
  let toDirectories ← directoriesOffset optionalMark
  let directories := optional + toDirectories
  -- the directories are counted in the field before the first one
  let directoryCount ← data.number (directories - 4) 4
  if directoryCount ≤ cliDirectory then
    throw (.notManaged .noCliDirectory)
  let cliHeader ← data.number (directories + cliDirectory * 8) 4
  if cliHeader = 0 then
    throw (.notManaged .emptyCliDirectory)
  let sections ← readSections data sectionCount (optional + optionalSize)
  return ⟨sections, cliHeader⟩

/-- The offset in the file of an address. The first section that holds the address decides. -/
def offsetOf (headers : Headers) (rva : Nat) : Except Fault Nat :=
  match headers.sections.find? (fun s => s.Holds rva) with
  | none => .error (.malformed (.addressOutside rva))
  | some s =>
    if s.storedSize ≤ rva - s.address then .error (.malformed (.addressNotStored rva))
    else .ok (s.storedAt + (rva - s.address))

/-- The offset in the file of the metadata root. -/
def metadataOffset (headers : Headers) (data : Bytes) : Except Fault Nat := do
  let cli ← headers.offsetOf headers.cliHeader
  let rva ← data.number (cli + 8) 4
  if rva = 0 then
    throw (.notManaged .noMetadata)
  headers.offsetOf rva

end Headers

end PublicAssembly.Image
