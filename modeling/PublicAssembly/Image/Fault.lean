import PublicAssembly.Text.Basic

/-!
# Image faults

Why an image cannot be read or patched: the data ends too early, it is no PE file, it holds no
managed module, its metadata contradicts itself, or it uses something this library leaves out.
-/

namespace PublicAssembly.Image

open PublicAssembly.Text (hex)

/-- The reasons why an image is not a PE file. -/
inductive ContainerFault where
  /-- The file does not begin with the two letters of a DOS header. -/
  | missingDosMark
  /-- The offset in the DOS header does not lead to a PE signature. -/
  | missingSignature
  /-- The optional header is of neither known size. -/
  | unknownOptionalHeader
  deriving DecidableEq, Repr

/-- The wording of a container fault. -/
def ContainerFault.message : ContainerFault → String
  | .missingDosMark => "missing MZ signature"
  | .missingSignature => "missing PE signature"
  | .unknownOptionalHeader => "unknown optional header magic"

/-- The reasons why a PE file holds no managed module. -/
inductive ManagedFault where
  /-- There are too few data directories for one that names a CLI header. -/
  | noCliDirectory
  /-- The directory of the CLI header is empty. -/
  | emptyCliDirectory
  /-- The CLI header does not say where the metadata is. -/
  | noMetadata
  /-- The metadata root does not begin with its signature. -/
  | missingMetadataSignature
  /-- No stream holds the metadata tables. -/
  | noTableStream
  deriving DecidableEq, Repr

/-- The wording of a fault in what makes a PE file managed. -/
def ManagedFault.message : ManagedFault → String
  | .noCliDirectory => "no CLI header directory"
  | .emptyCliDirectory => "CLI header directory is empty"
  | .noMetadata => "CLI header has no metadata"
  | .missingMetadataSignature => "missing metadata signature"
  | .noTableStream => "metadata has no #~ stream"

/-- The ways in which metadata contradicts itself. -/
inductive MetadataFault where
  /-- A compressed integer begins with a byte that announces no length. -/
  | badLeadByte (byte : Nat)
  /-- An address lies in a section, past the part of it that the file stores. -/
  | addressNotStored (rva : Nat)
  /-- An address lies in no section. -/
  | addressOutside (rva : Nat)
  /-- A stream name goes on past its greatest length. -/
  | streamNameTooLong
  /-- There is no table of this number. -/
  | unknownTable (table : Nat)
  /-- The table has no row of this number. -/
  | rowOutOfRange (row table rows : Nat)
  /-- The table has no column of this number. -/
  | noColumn (table column : Nat)
  /-- A string index lies past the string heap. -/
  | stringOutside (index : Nat)
  /-- A string runs to the end of the string heap without a terminator. -/
  | stringUnterminated (index : Nat)
  /-- A string is not UTF-8. -/
  | stringNotUtf8 (index : Nat)
  /-- A blob index lies past the blob heap. -/
  | blobOutside (index : Nat)
  /-- A fat method header gives itself less than its least size. -/
  | fatHeaderTooSmall (offset size : Nat)
  /-- The first byte of a method body is of neither format. -/
  | unknownBodyFormat (byte offset : Nat)
  /-- A type reference in a signature has a tag without a table. -/
  | badTypeReference (value : Nat)
  /-- A signature is nested too deep. -/
  | signatureTooDeep
  /-- A signature names an element type that does not exist. -/
  | unknownElement (byte : Nat)
  /-- The rows that a list column gives to an owner do not form a range. -/
  | badList (table row first stop : Nat)
  /-- The upper byte of a token names another table. -/
  | foreignToken (token table : Nat)
  /-- The access bits of a member hold the reserved value. -/
  | reservedAccess (name : String) (flags : Nat)
  /-- A row that gives members to a type names a type that does not exist. -/
  | badParent (table parent types : Nat)
  /-- A nesting row names a type that does not exist. -/
  | badNesting (row nested enclosing : Nat)
  /-- Two nesting rows name the same nested type. -/
  | nestedTwice (type : Nat)
  /-- Some types enclose one another in a circle. -/
  | nestingCycle (caught types : Nat)
  deriving DecidableEq, Repr

/-- The wording of a metadata fault. -/
def MetadataFault.message : MetadataFault → String
  | .badLeadByte byte => "bad compressed integer lead byte " ++ hex byte 2
  | .addressNotStored rva => "rva " ++ hex rva ++ " has no data in the file"
  | .addressOutside rva => "rva " ++ hex rva ++ " lies outside every section"
  | .streamNameTooLong => "stream name too long"
  | .unknownTable table => "unknown table " ++ hex table 2
  | .rowOutOfRange row table rows =>
    s!"row {row} out of range for table " ++ hex table 2 ++ s!" ({rows} rows)"
  | .noColumn table column => "table " ++ hex table 2 ++ s!" has no column {column}"
  | .stringOutside index => "string index " ++ hex index ++ " outside #Strings"
  | .stringUnterminated index => "unterminated string at " ++ hex index
  | .stringNotUtf8 index => "invalid UTF-8 string at " ++ hex index
  | .blobOutside index => "blob index " ++ hex index ++ " outside #Blob"
  | .fatHeaderTooSmall offset size => "fat method header at " ++ hex offset ++ s!" is {size} bytes"
  | .unknownBodyFormat byte offset =>
    "unknown method body format " ++ hex byte 2 ++ " at " ++ hex offset
  | .badTypeReference value => "bad TypeDefOrRef encoding " ++ hex value
  | .signatureTooDeep => "signature nesting too deep"
  | .unknownElement byte => "unknown element type " ++ hex byte 2 ++ " in signature"
  | .badList table row first stop =>
    "list of table " ++ hex table 2 ++ s!" row {row} runs from {first} to {stop}"
  | .foreignToken token table =>
    "token " ++ hex token 8 ++ " does not belong to table " ++ hex table 2
  | .reservedAccess name flags => s!"{name} has reserved access bits " ++ hex flags 4
  | .badParent table parent types =>
    "table " ++ hex table 2 ++ s!" names parent type row {parent} of {types}"
  | .badNesting row nested enclosing => s!"NestedClass row {row} links {nested} to {enclosing}"
  | .nestedTwice type => s!"type row {type} has more than one enclosing type"
  | .nestingCycle caught types => s!"{caught} of {types} types are caught in a nesting cycle"

/-- What an image or a module may hold that cannot be read or written back. -/
inductive UnsupportedPart where
  /-- The table mask names tables beyond the known ones. -/
  | tableMask (mask : Nat)
  /-- A table that redirects the rows of another one is present. -/
  | indirectionTable (table : Nat)
  /-- The tables are in the form meant for editing. -/
  | editTables
  /-- A type comes from no row of the image. -/
  | typeWithoutRow (fullName : String)
  /-- A field comes from no row of the image. -/
  | fieldWithoutRow (name : String)
  /-- A method comes from no row of the image. -/
  | methodWithoutRow (name : String)
  /-- A method has code although its row has no body. -/
  | gainedBody (method : String)
  /-- The code of a method differs from the image and is not empty. -/
  | changedBody (method : String)
  deriving DecidableEq, Repr

/-- The wording of a part that is left out. -/
def UnsupportedPart.message : UnsupportedPart → String
  | .tableMask mask => "table mask " ++ hex mask ++ " names tables this reader does not know"
  | .indirectionTable table => "indirection table " ++ hex table 2 ++ " is present"
  | .editTables => "uncompressed #- table stream"
  | .typeWithoutRow fullName => s!"type {fullName} has no metadata row"
  | .fieldWithoutRow name => s!"field {name} has no metadata row"
  | .methodWithoutRow name => s!"method {name} has no metadata row"
  | .gainedBody method => s!"method {method} gained a body"
  | .changedBody method => s!"re-encoding the changed body of {method}"

/-- Why an image cannot be read or patched. -/
inductive Fault where
  /-- Fewer than `wanted` bytes are left at `offset`. -/
  | truncated (offset wanted : Nat)
  /-- The data is not a PE file. -/
  | notPe (fault : ContainerFault)
  /-- The PE file holds no managed module. -/
  | notManaged (fault : ManagedFault)
  /-- The metadata contradicts itself. -/
  | malformed (fault : MetadataFault)
  /-- The image or the module holds something that is left out here. -/
  | unsupported (part : UnsupportedPart)
  deriving DecidableEq, Repr

/-- The wording of an image fault. -/
def Fault.message : Fault → String
  | .truncated offset wanted =>
    "unexpected end of data at offset " ++ hex offset ++ s!" (wanted {wanted} bytes)"
  | .notPe fault => "not a PE image: " ++ fault.message
  | .notManaged fault => "not a managed module: " ++ fault.message
  | .malformed fault => "malformed metadata: " ++ fault.message
  | .unsupported part => "unsupported metadata: " ++ part.message

end PublicAssembly.Image
