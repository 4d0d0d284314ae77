import PublicAssembly.Metadata.Table

/-!
# Coded indexes

A coded index names a row of one of several tables: its low bits say which table, the others which
row. It is stored in two bytes as long as the last row of each of its tables fits.
-/

namespace PublicAssembly.Metadata

/-- The kinds of coded index. -/
inductive CodedIndex where
  | typeDefOrRef
  | hasConstant
  | hasCustomAttribute
  | hasFieldMarshal
  | hasDeclSecurity
  | memberRefParent
  | hasSemantics
  | methodDefOrRef
  | memberForwarded
  | implementation
  | customAttributeType
  | resolutionScope
  | typeOrMethodDef
  deriving DecidableEq, Repr

namespace CodedIndex

/-- The number of low bits that say which table is meant. -/
def tagBits : CodedIndex → Nat
  | typeDefOrRef => 2
  | hasConstant => 2
  | hasCustomAttribute => 5
  | hasFieldMarshal => 1
  | hasDeclSecurity => 2
  | memberRefParent => 3
  | hasSemantics => 1
  | methodDefOrRef => 1
  | memberForwarded => 1
  | implementation => 2
  | customAttributeType => 3
  | resolutionScope => 2
  | typeOrMethodDef => 1

/-- The table that each tag stands for; a tag may be listed and yet unused. -/
def tables : CodedIndex → List (Option Table)
  | typeDefOrRef => [some Table.typeDef, some Table.typeRef, some Table.typeSpec]
  | hasConstant => [some Table.field, some Table.param, some Table.property]
  | hasCustomAttribute => [
      some Table.methodDef, some Table.field, some Table.typeRef, some Table.typeDef,
      some Table.param, some Table.interfaceImpl, some Table.memberRef, some Table.module,
      some Table.declSecurity, some Table.property, some Table.event, some Table.standAloneSig,
      some Table.moduleRef, some Table.typeSpec, some Table.assembly, some Table.assemblyRef,
      some Table.file, some Table.exportedType, some Table.manifestResource,
      some Table.genericParam, some Table.genericParamConstraint, some Table.methodSpec]
  | hasFieldMarshal => [some Table.field, some Table.param]
  | hasDeclSecurity => [some Table.typeDef, some Table.methodDef, some Table.assembly]
  | memberRefParent => [
      some Table.typeDef, some Table.typeRef, some Table.moduleRef, some Table.methodDef,
      some Table.typeSpec]
  | hasSemantics => [some Table.event, some Table.property]
  | methodDefOrRef => [some Table.methodDef, some Table.memberRef]
  | memberForwarded => [some Table.field, some Table.methodDef]
  | implementation => [some Table.file, some Table.assemblyRef, some Table.exportedType]
  -- the first two tags and the last one stand for no table
  | customAttributeType => [none, none, some Table.methodDef, some Table.memberRef, none]
  | resolutionScope => [
      some Table.module, some Table.moduleRef, some Table.assemblyRef, some Table.typeRef]
  | typeOrMethodDef => [some Table.typeDef, some Table.methodDef]

/-- The greatest number of rows among the tables of the kind. -/
def largest (kind : CodedIndex) (counts : RowCounts) : Nat :=
  (kind.tables.filterMap id).foldl (fun most table => max most (counts.rows table)) 0

/-- The number of bytes that store an index of the kind. -/
def width (kind : CodedIndex) (counts : RowCounts) : Nat :=
  if kind.largest counts < 1 <<< (16 - kind.tagBits) then 2 else 4

/-- The table and the row that a stored value names, `none` when its tag is unused. -/
def decode (kind : CodedIndex) (value : Nat) : Option (Table × Nat) :=
  match kind.tables[value % 1 <<< kind.tagBits]? with
  | some (some table) => some (table, value >>> kind.tagBits)
  | _ => none

/-- The value that names a row of the table with the given tag. -/
def encode (kind : CodedIndex) (tag row : Nat) : Nat :=
  row <<< kind.tagBits + tag

/-- Each kind has room for all its tags. -/
theorem length_tables_le (kind : CodedIndex) : kind.tables.length ≤ 1 <<< kind.tagBits := by
  cases kind <;> decide

/-- Decoding undoes encoding. -/
theorem decode_encode {kind : CodedIndex} {tag row : Nat} {table : Table}
    (h : kind.tables[tag]? = some (some table)) :
    kind.decode (kind.encode tag row) = some (table, row) := by
  have bound : tag < 1 <<< kind.tagBits :=
    Nat.lt_of_lt_of_le (List.getElem?_eq_some_iff.mp h).1 kind.length_tables_le
  rw [Nat.one_shiftLeft] at bound
  have remainder : kind.encode tag row % 1 <<< kind.tagBits = tag := by
    rw [encode, Nat.shiftLeft_eq, Nat.one_shiftLeft, Nat.mul_comm, Nat.mul_add_mod,
      Nat.mod_eq_of_lt bound]
  have quotient : kind.encode tag row >>> kind.tagBits = row := by
    rw [encode, Nat.shiftLeft_eq, Nat.shiftRight_eq_div_pow, Nat.mul_comm,
      Nat.mul_add_div (Nat.two_pow_pos _), Nat.div_eq_of_lt bound, Nat.add_zero]
  simp [decode, remainder, quotient, h]

end CodedIndex

end PublicAssembly.Metadata
