import PublicAssembly.Text.Basic

/-!
# JSON values and faults

The values that a JSON text stands for, and why a text cannot be read. Of the numbers only the
integers are told apart, and a string is known unless one of its escapes names half of a surrogate
pair. An object keeps its members in order and may give a key more than once. A fault has the place
where reading stopped.
-/

namespace PublicAssembly

open Text (Position)

/-- A JSON value. -/
inductive Json where
  /-- The value without content. -/
  | null
  /-- A truth value. -/
  | bool (value : Bool)
  /-- A number written as digits alone, perhaps with a minus. -/
  | integer (value : Int)
  /-- A number written with a fraction or an exponent, or zero written with a minus. -/
  | otherNumber
  /-- A string; `none` if it is no sequence of characters. -/
  | string (text : Option String)
  /-- Some values in order. -/
  | array (items : List Json)
  /-- Some values in order, each under a key. -/
  | object (members : List (Option String × Json))

namespace Json

/-- The value of a text. -/
def ofText (text : String) : Json :=
  string (some text)

/-- The value of a natural number. -/
def ofNat (value : Nat) : Json :=
  integer value

/-- The object with the given keys. -/
def ofMembers (members : List (String × Json)) : Json :=
  object (members.map fun member => (some member.1, member.2))

/-! ### Faults -/

/-- What is wrong with a JSON text. -/
inductive Problem where
  /-- No token begins here. -/
  | unreadable
  /-- The token that begins here cannot follow what is before it. -/
  | misplaced
  /-- The text ends inside a value. -/
  | unfinished
  /-- The value that begins here is not of the expected shape. -/
  | mismatch (expected : String)
  deriving DecidableEq, Repr

/-- The wording of a problem. -/
def Problem.message : Problem → String
  | unreadable => "expected a JSON token"
  | misplaced => "unexpected JSON token"
  | unfinished => "unexpected end of the JSON text"
  | mismatch expected => "expected " ++ expected

/-- Why a JSON text cannot be read. -/
structure Fault where
  /-- What is wrong. -/
  problem : Problem
  /-- The place where it is wrong. -/
  position : Position
  deriving DecidableEq, Repr

/-- The wording of a fault. -/
def Fault.message (fault : Fault) : String :=
  fault.problem.message ++
    s!" at line {fault.position.line} column {fault.position.column}"

end Json

end PublicAssembly
