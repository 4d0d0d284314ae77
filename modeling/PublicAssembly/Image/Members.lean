import PublicAssembly.Image.Ranges
import PublicAssembly.Symbol.TypeDecl

/-!
# Members by row

Which rows of an image belong to which type: fields and methods by the list columns of the types,
events and properties by tables of their own, and accessors by the table that associates methods
with properties.
-/

namespace PublicAssembly.Image

open Metadata (Table CodedIndex)

/-- An event or a property with the row of the type that it belongs to. -/
structure OwnedRow where
  /-- The row of the type. -/
  owner : Nat
  /-- The row of the member. -/
  row : Nat
  /-- The name of the member. -/
  name : String
  deriving DecidableEq, Repr

/-- The members in the given rows of a table, whose names stand in column 1. -/
def ownedRows (image : Image) (owner : Nat) (table : Table) (rows : List Nat) :
    Except Fault (List OwnedRow) :=
  rows.mapM fun row => do
    let name ← image.cellString table row 1
    return ⟨owner, row, name⟩

/-- The members that map rows with the given owners and runs assign, map row after map row. Each
owner must be a type. -/
def assignRows (image : Image) (mapTable table : Table) :
    (owners : List Nat) → (ranges : List RowRange) → Except Fault (List OwnedRow)
  | owner :: owners, range :: ranges => do
    let types := image.rows Table.typeDef
    if owner = 0 ∨ types < owner then
      throw (.malformed (.badParent mapTable owner types))
    let here ← image.ownedRows owner table range.rows
    let rest ← assignRows image mapTable table owners ranges
    return here ++ rest
  | _, _ => .ok []

/-- The members of a table with their types, as the map table assigns them. -/
def assignedRows (image : Image) (mapTable table : Table) : Except Fault (List OwnedRow) := do
  let owners ← image.columnValues mapTable 0
  let ranges ← image.listRanges mapTable 1 table
  image.assignRows mapTable table owners ranges

/-- The members of each type, in the order of the type rows; place 0 stays empty. -/
def groupByOwner (types : Nat) (members : List OwnedRow) : Array (List OwnedRow) :=
  members.foldr (fun member groups => groups.modify member.owner (member :: ·))
    (Array.replicate (types + 1) [])

/-- A row that associates a method with an event or a property. -/
structure SemanticsRow where
  /-- What the method does. -/
  semantics : Nat
  /-- The row of the method. -/
  method : Nat
  /-- The row of the property, if it is a property. -/
  property : Option Nat
  deriving DecidableEq, Repr

namespace SemanticsRow

/-- The property of a value that names an event or a property. -/
def propertyOf (association : Nat) : Option Nat :=
  match CodedIndex.hasSemantics.decode association with
  | some (table, row) => if table = Table.property then some row else none
  | none => none

/-- The method reads the property. -/
def isGetter (row : SemanticsRow) : Bool :=
  row.semantics.testBit 1

/-- The method writes the property and does not also read it. -/
def isSetter (row : SemanticsRow) : Bool :=
  !row.isGetter && row.semantics.testBit 0

end SemanticsRow

/-- The rows that associate methods with events and properties, in order. -/
def semanticsRows (image : Image) : Except Fault (List SemanticsRow) :=
  (List.range' 1 (image.rows Table.methodSemantics)).mapM fun row => do
    let semantics ← image.cell Table.methodSemantics row 0
    let method ← image.cell Table.methodSemantics row 1
    let association ← image.cell Table.methodSemantics row 2
    return ⟨semantics, method, SemanticsRow.propertyOf association⟩

/-- The accessors of a property, by their places among the methods of its type. -/
structure Accessors where
  /-- The method that reads the property. -/
  getter : Option Nat
  /-- The method that writes the property. -/
  setter : Option Nat
  deriving DecidableEq, Repr

/-- No accessors. -/
def Accessors.empty : Accessors :=
  ⟨none, none⟩

/-- The type that each property row belongs to, 0 for none; place 0 stays empty. -/
def ownersOf (properties : Nat) (members : List OwnedRow) : Array Nat :=
  members.foldl (fun owners member => owners.setIfInBounds member.row member.owner)
    (Array.replicate (properties + 1) 0)

/-- The rows of an image that are members of some type. -/
structure Membership where
  /-- The run of field rows of each type. -/
  fields : Array RowRange
  /-- The run of method rows of each type. -/
  methods : Array RowRange
  /-- The events of each type, place 0 being empty. -/
  events : Array (List OwnedRow)
  /-- The properties of each type, place 0 being empty. -/
  properties : Array (List OwnedRow)
  /-- The type of each property row, 0 for none. -/
  propertyOwners : Array Nat
  /-- The rows that associate methods with properties. -/
  semantics : List SemanticsRow

/-- Read which rows are members of which type. -/
def membership (image : Image) : Except Fault Membership := do
  let types := image.rows Table.typeDef
  let fields ← image.listRanges Table.typeDef 4 Table.field
  let methods ← image.listRanges Table.typeDef 5 Table.methodDef
  let events ← image.assignedRows Table.eventMap Table.event
  let properties ← image.assignedRows Table.propertyMap Table.property
  let semantics ← image.semanticsRows
  return {
    fields := fields.toArray
    methods := methods.toArray
    events := groupByOwner types events
    properties := groupByOwner types properties
    propertyOwners := ownersOf (image.rows Table.property) properties
    semantics }

namespace Membership

/-- The run of methods of a type row. -/
def methodRange (members : Membership) (type : Nat) : RowRange :=
  if type = 0 then .empty else members.methods.getD (type - 1) .empty

/-- The run of fields of a type row. -/
def fieldRange (members : Membership) (type : Nat) : RowRange :=
  if type = 0 then .empty else members.fields.getD (type - 1) .empty

/-- The property row that a semantics row is about, with the type it belongs to. -/
def owned? (members : Membership) (row : SemanticsRow) : Option (Nat × Nat) :=
  match row.property with
  | none => none
  | some property =>
    let owner := members.propertyOwners.getD property 0
    if owner = 0 then none else some (property, owner)

/-- Take in one semantics row. It has no effect unless it names a method of the type that the
property belongs to; a later row wins over an earlier one. -/
def addAccessor (members : Membership) (found : Array Accessors) (row : SemanticsRow) :
    Array Accessors :=
  match members.owned? row with
  | none => found
  | some (property, owner) =>
    match (members.methodRange owner).place? row.method with
    | none => found
    | some place =>
      -- a row that is marked as both is one of a getter
      if row.isGetter then
        found.modify property fun a => { a with getter := some place }
      else if row.isSetter then
        found.modify property fun a => { a with setter := some place }
      else found

/-- The accessors of each property row; place 0 stays empty. -/
def accessors (members : Membership) : Array Accessors :=
  members.semantics.foldl members.addAccessor
    (Array.replicate members.propertyOwners.size .empty)

/-- The methods that are associated with a property of another type, in the order of their
rows. -/
def foreignAccessors (members : Membership) : List Nat :=
  members.semantics.filterMap fun row =>
    match members.owned? row with
    | none => none
    | some (_, owner) =>
      if (members.methodRange owner).Holds row.method then none else some row.method

end Membership

end PublicAssembly.Image
