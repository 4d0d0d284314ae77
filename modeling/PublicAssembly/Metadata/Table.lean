/-!
# Metadata tables

The tables that the metadata of a module may hold, by the numbers under which tokens and masks
name them.
-/

namespace PublicAssembly.Metadata

/-- The number of a metadata table. -/
abbrev Table := Nat

namespace Table

/-- The number of tables that a table stream may hold. -/
def count : Nat := 45

/-- The module itself, one row. -/
def module : Table := 0x00
/-- Types of other modules. -/
def typeRef : Table := 0x01
/-- Types of this module. -/
def typeDef : Table := 0x02
/-- Redirection of field rows. -/
def fieldPtr : Table := 0x03
/-- Fields. -/
def field : Table := 0x04
/-- Redirection of method rows. -/
def methodPtr : Table := 0x05
/-- Methods. -/
def methodDef : Table := 0x06
/-- Redirection of parameter rows. -/
def paramPtr : Table := 0x07
/-- Parameters. -/
def param : Table := 0x08
/-- Interfaces that types implement. -/
def interfaceImpl : Table := 0x09
/-- Members of other types. -/
def memberRef : Table := 0x0A
/-- Constant values. -/
def constant : Table := 0x0B
/-- Custom attributes. -/
def customAttribute : Table := 0x0C
/-- How fields and parameters are passed to native code. -/
def fieldMarshal : Table := 0x0D
/-- Security declarations. -/
def declSecurity : Table := 0x0E
/-- Sizes of types. -/
def classLayout : Table := 0x0F
/-- Offsets of fields. -/
def fieldLayout : Table := 0x10
/-- Signatures that stand alone. -/
def standAloneSig : Table := 0x11
/-- Which events belong to which type. -/
def eventMap : Table := 0x12
/-- Redirection of event rows. -/
def eventPtr : Table := 0x13
/-- Events. -/
def event : Table := 0x14
/-- Which properties belong to which type. -/
def propertyMap : Table := 0x15
/-- Redirection of property rows. -/
def propertyPtr : Table := 0x16
/-- Properties. -/
def property : Table := 0x17
/-- Which methods implement which event or property. -/
def methodSemantics : Table := 0x18
/-- Which methods override which. -/
def methodImpl : Table := 0x19
/-- Other modules. -/
def moduleRef : Table := 0x1A
/-- Types given by signatures. -/
def typeSpec : Table := 0x1B
/-- Methods implemented in native code. -/
def implMap : Table := 0x1C
/-- Initial data of fields. -/
def fieldRva : Table := 0x1D
/-- Log of an edit. -/
def encLog : Table := 0x1E
/-- Tokens of an edit. -/
def encMap : Table := 0x1F
/-- The assembly itself. -/
def assembly : Table := 0x20
/-- Processors of the assembly. -/
def assemblyProcessor : Table := 0x21
/-- Operating systems of the assembly. -/
def assemblyOs : Table := 0x22
/-- Other assemblies. -/
def assemblyRef : Table := 0x23
/-- Processors of other assemblies. -/
def assemblyRefProcessor : Table := 0x24
/-- Operating systems of other assemblies. -/
def assemblyRefOs : Table := 0x25
/-- Files of the assembly. -/
def file : Table := 0x26
/-- Types that the assembly exports from elsewhere. -/
def exportedType : Table := 0x27
/-- Resources. -/
def manifestResource : Table := 0x28
/-- Which types are nested in which. -/
def nestedClass : Table := 0x29
/-- Generic parameters. -/
def genericParam : Table := 0x2A
/-- Instances of generic methods. -/
def methodSpec : Table := 0x2B
/-- Constraints of generic parameters. -/
def genericParamConstraint : Table := 0x2C

/-- The tables that redirect the rows of another one. They occur only in metadata under edit. -/
def indirections : List Table := [fieldPtr, methodPtr, paramPtr, eventPtr, propertyPtr]

end Table

/-- The number of rows of every table, in the order of the tables. -/
abbrev RowCounts := List Nat

/-- The number of rows of a table; a table that is not listed has none. -/
def RowCounts.rows (counts : RowCounts) (table : Table) : Nat :=
  counts.getD table 0

end PublicAssembly.Metadata
