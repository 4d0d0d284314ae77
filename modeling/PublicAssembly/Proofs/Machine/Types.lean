import PublicAssembly.Image.Load
import PublicAssembly.Proofs.Machine.Members

/-!
# Types on a machine

What a row says of a type, a field or a method is read from its cells. The flags of members are cut
off to two bytes, which is all that their columns have. The names of types in signatures are looked
up while the signature is read.
-/

namespace PublicAssembly.Machine

open Image (Fault RowRange Accessors Membership)
open Metadata (Table)

/-- The token of a row. -/
def tokenOf (table : Table) (row : Nat) : Checked UInt32 := do
  let high ← shiftLeft 32 table 24
  return .ofNat (high ||| row)

/-- The field of a row. -/
def fieldDecl (image : Image) (row : Nat) : Checked FieldDecl := do
  let word ← cell image.metadata Table.field row 0
  let flags := word % 2 ^ 16
  let name ← cellString image.metadata Table.field row 1
  let access ← lift (Image.memberAccess name flags)
  let token ← tokenOf Table.field row
  return {
    token := some token
    name
    access
    attributes := Image.memberAttributes flags }

/-- The code of a method whose row gives the address and the implementation flags. -/
def methodBody (image : Image) (rva implFlags : Nat) : Checked (Option MethodBody) :=
  if rva ≠ 0 ∧ implFlags &&& 0x3 = 0 then do
    let (_, code) ← bodyAt image rva
    return some ⟨.ofNat rva, code⟩
  else .ok none

/-- The method of a row. -/
def methodDecl (image : Image) (row : Nat) : Checked MethodDecl := do
  let rva ← cell image.metadata Table.methodDef row 0
  let implWord ← cell image.metadata Table.methodDef row 1
  let implFlags := implWord % 2 ^ 16
  let word ← cell image.metadata Table.methodDef row 2
  let flags := word % 2 ^ 16
  let name ← cellString image.metadata Table.methodDef row 3
  let signature ← cell image.metadata Table.methodDef row 4
  let blob ← blob image.metadata.blobs signature
  let access ← lift (Image.memberAccess name flags)
  let token ← tokenOf Table.methodDef row
  let returnType ← returnType (typeName image.metadata) blob
  let body ← methodBody image rva implFlags
  return {
    token := some token
    name
    access
    attributes := Image.memberAttributes flags
    implAttributes := .ofNat implFlags
    returnType
    body }

/-- Put a method behind some others, and say which place it has. -/
def addMethod (methods : List MethodDecl) (method : MethodDecl) :
    Checked (List MethodDecl × Nat) := do
  let methods := methods ++ [method]
  let place ← sub methods.length 1
  return (methods, place % 2 ^ 32)

/-- The methods of some rows behind those that were read before. -/
def methodsOf (image : Image) : List MethodDecl → (rows : List Nat) → Checked (List MethodDecl)
  | found, [] => .ok found
  | found, row :: rest => do
    let method ← methodDecl image row
    let (found, _) ← addMethod found method
    methodsOf image found rest

/-- The type of a row, with its members. -/
def typeDecl (image : Image) (members : Membership) (accessors : Array Accessors)
    (fields methods : RowRange) (row : Nat) : Checked TypeDecl := do
  let flags ← cell image.metadata Table.typeDef row 0
  let name ← cellString image.metadata Table.typeDef row 1
  let space ← cellString image.metadata Table.typeDef row 2
  let token ← tokenOf Table.typeDef row
  let fields ← fields.rows.mapM (fieldDecl image)
  let methods ← methodsOf image [] methods.rows
  return {
    token := some token
    name
    namespaceName := space
    visibility := .ofFlags flags
    attributes := Image.typeAttributes flags
    methods
    fields
    properties := (members.properties.getD row []).map fun property =>
      let found := accessors.getD property.row .empty
      ⟨property.name, found.getter, found.setter⟩
    events := (members.events.getD row []).map Image.OwnedRow.name }

section Types

variable {image : Image}

/-- The number of a table fits above a row. -/
theorem tokenOf_eq {table : Table} (h : table < Table.count) (row : Nat) :
    tokenOf table row = .ok (Image.token table row) := by
  have hshift : table <<< 24 < 2 ^ 32 := by
    rw [Nat.shiftLeft_eq]
    calc table * 2 ^ 24 < 45 * 2 ^ 24 := Nat.mul_lt_mul_of_pos_right h (Nat.two_pow_pos 24)
      _ < 2 ^ 32 := by decide
  rw [tokenOf, shiftLeft_eq (by omega) hshift]
  rfl

theorem fieldDecl_eq (hfits : ImageFits image) (row : Nat) :
    fieldDecl image row = lift (image.fieldDecl row) := by
  rw [fieldDecl, Image.fieldDecl, cell_eq hfits]
  refine bind_eq_lift rfl fun flags hflags => ?_
  have hflags := cell_word_lt hfits (by decide) (by decide) hflags
  rw [Nat.mod_eq_of_lt hflags, cellString_eq hfits]
  refine bind_eq_lift rfl fun name _ => bind_eq_lift rfl fun access _ => ?_
  rw [tokenOf_eq (by decide)]
  rfl

theorem methodBody_eq (hfits : ImageFits image) {rva : Nat} (hrva : rva < 2 ^ 32)
    (implFlags : Nat) :
    methodBody image rva implFlags = lift (image.methodBody rva implFlags) := by
  rw [methodBody, Image.methodBody, Nat.and_two_pow_sub_one_eq_mod implFlags 2]
  refine ite_eq_lift (fun _ => ?_) fun _ => rfl
  rw [bodyAt_eq hfits hrva]
  exact bind_eq_lift rfl fun found _ => rfl

theorem methodDecl_eq (hfits : ImageFits image) (row : Nat) :
    methodDecl image row = lift (image.methodDecl row) := by
  rw [methodDecl, Image.methodDecl, cell_eq hfits, cell_eq hfits, cell_eq hfits,
    cellString_eq hfits, cell_eq hfits]
  refine bind_eq_lift rfl fun rva hrva => bind_eq_lift rfl fun implFlags himpl =>
    bind_eq_lift rfl fun flags hflags => ?_
  have himpl := cell_word_lt hfits (by decide) (by decide) himpl
  have hflags := cell_word_lt hfits (by decide) (by decide) hflags
  -- cells of two bytes keep their value when they are cast to words
  rw [Nat.mod_eq_of_lt himpl, Nat.mod_eq_of_lt hflags]
  refine bind_eq_lift rfl fun name _ => bind_eq_lift rfl fun signature _ => ?_
  rw [blob_eq hfits.blobs]
  refine bind_eq_lift rfl fun blob hblob => bind_eq_lift rfl fun access _ => ?_
  have hsize := Nat.lt_of_le_of_lt (size_blob_le hblob) hfits.blobs
  rw [tokenOf_eq (by decide), Reading.ok_bind, returnType_eq hsize (typeName_eq hfits)]
  refine bind_eq_lift rfl fun returnType _ => ?_
  rw [methodBody_eq hfits (cell_lt hfits hrva)]
  exact bind_eq_lift rfl fun body _ => rfl

theorem methodsOf_eq (hfits : ImageFits image) (rows : List Nat) (found : List MethodDecl) :
    methodsOf image found rows =
      lift (rows.mapM image.methodDecl >>= fun methods => .ok (found ++ methods)) := by
  induction rows generalizing found with
  | nil => exact congrArg Except.ok (List.append_nil found).symm
  | cons row rest ih =>
    rw [methodsOf, methodDecl_eq hfits, List.mapM_cons, bind_assoc]
    refine bind_eq_lift rfl fun method _ => ?_
    -- the method was added, so that there is a last one
    rw [addMethod, sub_eq (by simp), Reading.ok_bind]
    dsimp only [pure, Except.pure]
    rw [Reading.ok_bind, ih]
    dsimp only
    rcases rest.mapM image.methodDecl with _ | methods
    · rfl
    · exact congrArg Except.ok (List.append_assoc found [method] methods)

theorem typeDecl_eq (hfits : ImageFits image) (members : Membership) (accessors : Array Accessors)
    (row : Nat) :
    typeDecl image members accessors (members.fieldRange row) (members.methodRange row) row =
      lift (image.typeDecl members accessors row) := by
  rw [typeDecl, Image.typeDecl, cell_eq hfits, cellString_eq hfits, cellString_eq hfits]
  refine bind_eq_lift rfl fun flags _ => bind_eq_lift rfl fun name _ =>
    bind_eq_lift rfl fun space _ => ?_
  rw [tokenOf_eq (by decide), Reading.ok_bind,
    mapM_eq_lift fun row _ => fieldDecl_eq hfits row]
  refine bind_eq_lift rfl fun fields _ => ?_
  rw [methodsOf_eq hfits]
  rcases (members.methodRange row).rows.mapM image.methodDecl with _ | methods
  · rfl
  · rfl

end Types

end PublicAssembly.Machine
