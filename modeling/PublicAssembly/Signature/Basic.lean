import PublicAssembly.Metadata.CodedIndex
import PublicAssembly.Text.Basic

/-!
# Types in signatures

The types that a method signature can give as its return type, and how they are written.
-/

namespace PublicAssembly

open Metadata (Table)
open Text (hex)

/-- The types that are one element of a signature. -/
inductive Primitive where
  | void
  | boolean
  | char
  | int8
  | uint8
  | int16
  | uint16
  | int32
  | uint32
  | int64
  | uint64
  | float32
  | float64
  | string
  | typedReference
  | nativeInt
  | nativeUInt
  | object
  deriving DecidableEq, Repr

namespace Primitive

/-- The byte that stands for the type. -/
def element : Primitive → UInt8
  | void => 0x01
  | boolean => 0x02
  | char => 0x03
  | int8 => 0x04
  | uint8 => 0x05
  | int16 => 0x06
  | uint16 => 0x07
  | int32 => 0x08
  | uint32 => 0x09
  | int64 => 0x0A
  | uint64 => 0x0B
  | float32 => 0x0C
  | float64 => 0x0D
  | string => 0x0E
  | typedReference => 0x16
  | nativeInt => 0x18
  | nativeUInt => 0x19
  | object => 0x1C

/-- Every type that is one element. -/
def all : List Primitive := [
  void, boolean, char, int8, uint8, int16, uint16, int32, uint32, int64, uint64, float32, float64,
  string, typedReference, nativeInt, nativeUInt, object]

/-- The type that a byte stands for. -/
def ofElement? (element : UInt8) : Option Primitive :=
  all.find? fun p => p.element == element

/-- Each type is the one that its byte stands for. -/
theorem ofElement?_element (p : Primitive) : ofElement? p.element = some p := by
  cases p <;> decide

/-- How the type is written. -/
def name : Primitive → String
  | void => "void"
  | boolean => "bool"
  | char => "char"
  | int8 => "int8"
  | uint8 => "uint8"
  | int16 => "int16"
  | uint16 => "uint16"
  | int32 => "int32"
  | uint32 => "uint32"
  | int64 => "int64"
  | uint64 => "uint64"
  | float32 => "float32"
  | float64 => "float64"
  | string => "string"
  | typedReference => "typedref"
  | nativeInt => "native int"
  | nativeUInt => "native uint"
  | object => "object"

end Primitive

/-- A type in a signature. -/
inductive SigType where
  /-- A type that is one element. -/
  | primitive (type : Primitive)
  /-- A pointer. -/
  | pointer (target : SigType)
  /-- A reference to a variable. -/
  | byRef (target : SigType)
  /-- A class or a value type, given by its row. -/
  | named (table : Table) (row : Nat)
  /-- A generic parameter of the declaring type. -/
  | typeVariable (number : Nat)
  /-- A generic parameter of the method. -/
  | methodVariable (number : Nat)
  /-- An array of some rank. -/
  | array (element : SigType) (rank : Nat)
  /-- An array with one dimension that starts at zero. -/
  | vector (element : SigType)
  /-- A generic type with its arguments. -/
  | generic (type : SigType) (arguments : List SigType)
  /-- A pointer to a method; a parameter may stand behind the mark after which arguments vary. -/
  | method (result : SigType) (parameters : List (Bool × SigType))
  /-- A type whose values stay where they are in memory. -/
  | pinned (type : SigType)
  deriving Repr

/-- How rows that name types are written. -/
abbrev TypeNames := Table → Nat → Option String

/-- The name of a row, or its number where it has none. -/
def TypeNames.show (names : TypeNames) (table : Table) (row : Nat) : String :=
  match names table row with
  | some name => name
  | none => "type#" ++ hex table 2 ++ s!":{row}"

/-- Texts with a comma and a blank between each and the next. -/
def commaSeparated (texts : List String) : String :=
  String.intercalate ", " texts

namespace SigType

/-- The type without a result. -/
def void : SigType :=
  primitive .void

mutual

/-- How a type is written. -/
def render (names : TypeNames) : SigType → String
  | primitive type => type.name
  | pointer target => target.render names ++ "*"
  | byRef target => target.render names ++ "&"
  | named table row => names.show table row
  | typeVariable number => s!"!{number}"
  | methodVariable number => s!"!!{number}"
  | array element rank =>
    element.render names ++ "[" ++ String.ofList (List.replicate (rank - 1) ',') ++ "]"
  | vector element => element.render names ++ "[]"
  | generic type arguments =>
    type.render names ++ "<" ++ commaSeparated (renderAll names arguments) ++ ">"
  | method result parameters =>
    "method " ++ result.render names ++ " *(" ++
      commaSeparated (renderParameters names parameters) ++ ")"
  | pinned type => type.render names ++ " pinned"

/-- How each of some types is written. -/
def renderAll (names : TypeNames) : List SigType → List String
  | [] => []
  | type :: rest => type.render names :: renderAll names rest

/-- How parameters are written; the mark after which arguments vary is a text of its own. -/
def renderParameters (names : TypeNames) : List (Bool × SigType) → List String
  | [] => []
  | (marked, type) :: rest =>
    (if marked then ["..."] else []) ++ type.render names :: renderParameters names rest

end

end SigType

end PublicAssembly
