import PublicAssembly.Text.Basic

/-!
# TOML values and faults

The values that a TOML text stands for, and why a text cannot be read. Numbers are told from the
other values but not read. Of a table it is kept how it came to be, because that decides what may
still be added to it. A fault has the place of the statement that is at fault.
-/

namespace PublicAssembly.Toml

open PublicAssembly.Text (Position)

/-- How a table came to be. -/
inductive Origin where
  /-- It was written between braces. -/
  | inline
  /-- It has a header of its own, or is the whole text. -/
  | header
  /-- The header of a table in it implies it. -/
  | implied
  /-- A key with points implies it. -/
  | dotted
  deriving DecidableEq, Repr

/-- A TOML value. -/
inductive Value where
  /-- A text. -/
  | string (text : String)
  /-- A truth value. -/
  | boolean (value : Bool)
  /-- A number. -/
  | number
  /-- A date, a time, or both. -/
  | date
  /-- Some values in order. -/
  | array (items : List Value)
  /-- Some values, each under a key. -/
  | table (origin : Origin) (entries : List (String × Value))
  /-- Some tables with the same header, in order. -/
  | tables (elements : List (List (String × Value)))

/-- What is wrong with a TOML text. -/
inductive Problem where
  /-- A statement is not of any known form. -/
  | unreadable
  /-- A statement sets a key that is set already, or extends a table that is closed. -/
  | conflict
  /-- The text is well formed, but a value is not of the type that its key has. -/
  | mismatch
  deriving DecidableEq, Repr

/-- The wording of a problem. -/
def Problem.message : Problem → String
  | unreadable => "expected a key, a table header or a comment"
  | conflict => "the key is already set"
  | mismatch => "a value is not of the expected type"

/-- Why a TOML text cannot be read. -/
structure Fault where
  /-- What is wrong. -/
  problem : Problem
  /-- The place of the statement that is at fault. -/
  position : Position
  deriving DecidableEq, Repr

/-- The wording of a fault. -/
def Fault.message (fault : Fault) : String :=
  s!"TOML parse error at line {fault.position.line}, column {fault.position.column}: " ++
    fault.problem.message

end PublicAssembly.Toml
