import PublicAssembly.Signature.Decode

/-!
# The grammar of signatures

A method signature is a header and a return type, with the types of the parameters behind it, which
nothing reads. The derivations of the grammar are trees: each tree has the bytes that it derives and
the type that it stands for. Everything that the bytes say is in the tree, also what is passed when
they are read, such as modifiers and the form in which a number is stored.

## Main definitions

* `StoredNumber`, `MethodHeader`, `TypeSyntax`: the derivations, with their `bytes`;
* `TypeSyntax.type`: the type that a derivation stands for;
* `TypeSyntax.FitsAt`: how deep the types of a derivation may be nested;
* `Derivation`: a derivation of the beginning of a signature.
-/

namespace PublicAssembly.Signature

open Metadata (Table CodedIndex)

/-! ### Numbers and rows -/

/-- A compressed number as it is stored. -/
structure StoredNumber where
  /-- The form in which it is stored, which need not be the shortest one. -/
  form : CompressedForm
  /-- The number. -/
  value : Nat
  /-- The form has room for the number. -/
  lt_bound : value < form.bound

/-- The bytes of a stored number. -/
def StoredNumber.bytes (number : StoredNumber) : List UInt8 :=
  number.form.encode number.value

/-- The bytes of so many items, one item after another. -/
def inSequence {count : Nat} (bytes : Fin count → List UInt8) : List UInt8 :=
  (List.ofFn bytes).flatten

/-- Stored numbers with their count before them. -/
structure NumberList where
  /-- How many they are. -/
  count : StoredNumber
  /-- The numbers. -/
  numbers : Fin count.value → StoredNumber

/-- The bytes of stored numbers with their count. -/
def NumberList.bytes (list : NumberList) : List UInt8 :=
  list.count.bytes ++ inSequence fun i => (list.numbers i).bytes

/-- A stored reference to a row that names a type. -/
structure TypeReference where
  /-- The stored number. -/
  number : StoredNumber
  /-- The table of the row. -/
  table : Table
  /-- The number of the row in its table. -/
  row : Nat
  /-- The number stands for the row. -/
  decode_eq : CodedIndex.typeDefOrRef.decode number.value = some (table, row)

/-- A custom modifier. -/
structure Modifier where
  /-- Whether it must be understood. -/
  required : Bool
  /-- The reference to its type, which is not looked up. -/
  reference : StoredNumber

/-- The byte that announces a modifier. -/
def Modifier.element (modifier : Modifier) : UInt8 :=
  if modifier.required then 0x1F else 0x20

/-- The bytes of a modifier. -/
def Modifier.bytes (modifier : Modifier) : List UInt8 :=
  modifier.element :: modifier.reference.bytes

/-- The header of a method signature. -/
structure MethodHeader where
  /-- The byte for the calling convention. -/
  convention : UInt8
  /-- The number of generic parameters. -/
  arity : Option StoredNumber
  /-- The number of parameters. -/
  count : StoredNumber
  /-- The calling convention announces generic parameters. -/
  isSome_arity : arity.isSome = convention.toNat.testBit SigType.genericBit

/-- The bytes of a header. -/
def MethodHeader.bytes (header : MethodHeader) : List UInt8 :=
  header.convention :: (header.arity.elim [] StoredNumber.bytes ++ header.count.bytes)

/-! ### Types -/

/-- The types that are one element with another type behind it. -/
inductive Wrapper where
  | pointer
  | byRef
  | vector
  | pinned

namespace Wrapper

/-- The byte before the other type. -/
def element : Wrapper → UInt8
  | pointer => 0x0F
  | byRef => 0x10
  | vector => 0x1D
  | pinned => 0x45

/-- The type around another one. -/
def wrap : Wrapper → SigType → SigType
  | pointer => .pointer
  | byRef => .byRef
  | vector => .vector
  | pinned => .pinned

end Wrapper

/-- A derivation of a type. -/
inductive TypeSyntax where
  /-- A type with a custom modifier before it. -/
  | modified (modifier : Modifier) (type : TypeSyntax)
  /-- A type that is one element. -/
  | primitive (type : Primitive)
  /-- An element with another type behind it. -/
  | wrapped (wrapper : Wrapper) (target : TypeSyntax)
  /-- A value type or a class, given by its row. -/
  | named (isValueType : Bool) (reference : TypeReference)
  /-- A generic parameter of the method or of the declaring type, given by its number. -/
  | genericParameter (ofMethod : Bool) (number : StoredNumber)
  /-- An array with its rank, its sizes and its lower bounds. -/
  | array (element : TypeSyntax) (rank : StoredNumber) (sizes bounds : NumberList)
  /-- A generic type with as many arguments as are declared. -/
  | generic (type : TypeSyntax) (count : StoredNumber) (arguments : Fin count.value → TypeSyntax)
  /-- A pointer to a method with as many parameters as its header declares. The sentinel, the mark
  after which arguments vary, may stand before a parameter. -/
  | method (header : MethodHeader) (result : TypeSyntax) (marked : Fin header.count.value → Bool)
    (parameters : Fin header.count.value → TypeSyntax)

/-- The bytes of the mark before a parameter. -/
def markBytes (marked : Bool) : List UInt8 :=
  if marked then [0x41] else []

/-- The places where a type can stand. -/
inductive Place where
  /-- A part of another type. -/
  | inner
  /-- The return type of a method. -/
  | result
  /-- The type of a parameter of a method. -/
  | parameter

/-- The types that can stand in a place at any depth: a method without a result, and a parameter
that carries its own type. -/
def Place.omits : Place → Primitive → Bool
  | inner, _ => false
  | result, type => type = .void
  | parameter, type => type = .typedReference

namespace TypeSyntax

/-- The bytes that a derivation derives. -/
def bytes : TypeSyntax → List UInt8
  | modified modifier type => modifier.bytes ++ type.bytes
  | primitive type => [type.element]
  | wrapped wrapper target => wrapper.element :: target.bytes
  | named isValueType reference => (if isValueType then 0x11 else 0x12) :: reference.number.bytes
  | genericParameter ofMethod number => (if ofMethod then 0x1E else 0x13) :: number.bytes
  | array element rank sizes bounds =>
    0x14 :: (element.bytes ++ rank.bytes ++ sizes.bytes ++ bounds.bytes)
  | generic type count arguments =>
    0x15 :: (type.bytes ++ count.bytes ++ inSequence fun i => (arguments i).bytes)
  | method header result marked parameters =>
    0x1B :: (header.bytes ++ result.bytes ++
      inSequence fun i => markBytes (marked i) ++ (parameters i).bytes)

/-- The type that a derivation stands for. -/
def type : TypeSyntax → SigType
  | modified _ type => type.type
  | primitive type => .primitive type
  | wrapped wrapper target => wrapper.wrap target.type
  | named _ reference => .named reference.table reference.row
  | genericParameter ofMethod number =>
    if ofMethod then .methodVariable number.value else .typeVariable number.value
  | array element rank _ _ => .array element.type rank.value
  | generic type _ arguments => .generic type.type (List.ofFn fun i => (arguments i).type)
  | method _ result marked parameters =>
    .method result.type (List.ofFn fun i => (marked i, (parameters i).type))

/-- A type in a place at a depth is nested no deeper than the bound allows. The parts of a type are
one level deeper, and the result of a pointer to a method is two levels deeper. A modifier takes no
level, and neither does a reference that is a result, nor a type that the place omits. -/
def FitsAt : TypeSyntax → Place → (depth : Nat) → Prop
  | modified _ type, place, depth => type.FitsAt place depth
  | primitive type, place, depth => place.omits type = true ∨ depth ≤ SigType.maxDepth
  | wrapped .byRef target, .result, depth => target.FitsAt .inner depth
  | wrapped _ target, _, depth => depth ≤ SigType.maxDepth ∧ target.FitsAt .inner (depth + 1)
  | named _ _, _, depth => depth ≤ SigType.maxDepth
  | genericParameter _ _, _, depth => depth ≤ SigType.maxDepth
  | array element _ _ _, _, depth =>
    depth ≤ SigType.maxDepth ∧ element.FitsAt .inner (depth + 1)
  | generic type _ arguments, _, depth =>
    depth ≤ SigType.maxDepth ∧ type.FitsAt .inner (depth + 1) ∧
      ∀ i, (arguments i).FitsAt .inner (depth + 1)
  | method _ result _ parameters, _, depth =>
    depth ≤ SigType.maxDepth ∧ result.FitsAt .result (depth + 2) ∧
      ∀ i, (parameters i).FitsAt .parameter (depth + 1)

/-- A wrapper takes a level, unless it is a reference that is a result. -/
theorem fitsAt_wrapped {wrapper : Wrapper} {target : TypeSyntax} {place : Place}
    (h : ¬(wrapper = .byRef ∧ place = .result)) (depth : Nat) :
    (wrapped wrapper target).FitsAt place depth ↔
      depth ≤ SigType.maxDepth ∧ target.FitsAt .inner (depth + 1) := by
  cases wrapper <;> cases place <;> first | exact Iff.rfl | exact absurd ⟨rfl, rfl⟩ h

theorem fitsAt_wrapped_inner {wrapper : Wrapper} {target : TypeSyntax} {depth : Nat} :
    (wrapped wrapper target).FitsAt .inner depth ↔
      depth ≤ SigType.maxDepth ∧ target.FitsAt .inner (depth + 1) := by
  cases wrapper <;> exact Iff.rfl

/-- What fits at a depth fits where it is less deep. -/
theorem FitsAt.anti {type : TypeSyntax} {place : Place} {depth deeper : Nat}
    (hle : depth ≤ deeper) (h : type.FitsAt place deeper) : type.FitsAt place depth := by
  induction type generalizing place depth deeper with
  | modified modifier type ih => exact ih hle h
  | primitive type => exact h.imp_right (Nat.le_trans hle)
  | wrapped wrapper target ih =>
    -- a reference that is a result takes no level, and any other wrapper takes one
    by_cases hresult : wrapper = .byRef ∧ place = .result
    · obtain ⟨rfl, rfl⟩ := hresult
      have htarget : target.FitsAt .inner deeper := h
      exact ih hle htarget
    · rw [fitsAt_wrapped hresult] at h ⊢
      exact ⟨Nat.le_trans hle h.1, ih (Nat.succ_le_succ hle) h.2⟩
  | named isValueType reference => exact Nat.le_trans hle h
  | genericParameter ofMethod number => exact Nat.le_trans hle h
  | array element rank sizes bounds ih =>
    exact ⟨Nat.le_trans hle h.1, ih (Nat.succ_le_succ hle) h.2⟩
  | generic type count arguments ihType ihArguments =>
    obtain ⟨hdepth, htype, harguments⟩ := h
    exact ⟨Nat.le_trans hle hdepth, ihType (Nat.succ_le_succ hle) htype,
      fun i => ihArguments i (Nat.succ_le_succ hle) (harguments i)⟩
  | method header result marked parameters ihResult ihParameters =>
    obtain ⟨hdepth, hresult, hparameters⟩ := h
    exact ⟨Nat.le_trans hle hdepth, ihResult (Nat.add_le_add_right hle 2) hresult,
      fun i => ihParameters i (Nat.succ_le_succ hle) (hparameters i)⟩

/-- What fits as a part fits in any place. -/
theorem FitsAt.of_inner {type : TypeSyntax} {depth : Nat} (h : type.FitsAt .inner depth)
    (place : Place) : type.FitsAt place depth := by
  induction type with
  | modified modifier type ih => exact ih h
  | primitive type => exact .inr (h.resolve_left Bool.false_ne_true)
  | wrapped wrapper target =>
    rw [fitsAt_wrapped_inner] at h
    by_cases hresult : wrapper = .byRef ∧ place = .result
    · -- what a reference refers to is less deep in a result
      obtain ⟨rfl, rfl⟩ := hresult
      exact FitsAt.anti (Nat.le_succ depth) h.2
    · exact (fitsAt_wrapped hresult depth).2 h
  | named => exact h
  | genericParameter => exact h
  | array => exact h
  | generic => exact h
  | method => exact h

end TypeSyntax

/-- A derivation of the beginning of a signature: a header, a return type that is not nested too
deep, and any bytes behind them. -/
structure Derivation (blob : List UInt8) where
  /-- The header. -/
  header : MethodHeader
  /-- The return type. -/
  result : TypeSyntax
  /-- The bytes behind the return type. -/
  rest : List UInt8
  /-- The signature consists of these. -/
  blob_eq : blob = header.bytes ++ result.bytes ++ rest
  /-- The return type has depth 1. -/
  fits : result.FitsAt .result 1

end PublicAssembly.Signature
