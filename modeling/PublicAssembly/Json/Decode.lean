import PublicAssembly.Json.Basic

/-!
# Typed JSON

Reading values of known types off a JSON value. A decoder is told how deep containers may still be
nested; what it does not look at may be nested to any depth.

A record is an object with the fields of the record as keys, each at most once and others
beside them, or an array with the fields in order, of which the last ones may be missing.
-/

namespace PublicAssembly.Json

/-- A way to read a value of a type off a JSON value, given how deep containers may be nested. -/
abbrev Decoder (α : Type) := Nat → Json → Option α

namespace Decoder

variable {α : Type}

/-- A string. -/
def text : Decoder String
  | _, string text => text
  | _, _ => none

/-- A natural number below a bound. -/
def naturalBelow (bound : Nat) : Decoder Nat
  | _, integer (.ofNat value) => if value < bound then some value else none
  | _, _ => none

/-- A number of one byte. -/
def byte : Decoder UInt8 :=
  fun room json => (naturalBelow 256 room json).map UInt8.ofNat

/-- A number of two bytes. -/
def word : Decoder UInt16 :=
  fun room json => (naturalBelow 65536 room json).map UInt16.ofNat

/-- A number of four bytes. -/
def doubleWord : Decoder UInt32 :=
  fun room json => (naturalBelow 4294967296 room json).map UInt32.ofNat

/-- A value, or null for none. -/
def optional (decode : Decoder α) : Decoder (Option α)
  | _, null => some none
  | room, json => (decode room json).map some

/-- An array of values. -/
def list (decode : Decoder α) : Decoder (List α)
  | room + 1, array items => items.mapM (decode room)
  | _, _ => none

/-- One of some names: a string, or an object that has the name as its only key and null under
it. -/
def keyword (ofKey? : String → Option α) : Decoder α
  | _, string (some key) => ofKey? key
  | _ + 1, object [(some key, null)] => ofKey? key
  | _, _ => none

/-- The value under a key that occurs at most once. The outer `none` is a key that occurs more
often. -/
def member? (members : List (Option String × Json)) (key : String) : Option (Option Json) :=
  match members.filter fun member => member.1 == some key with
  | [] => some none
  | [member] => some (some member.2)
  | _ => none

/-- The fields of a record, in the order of their names, with `none` for a field that is missing. -/
def fields? (names : List String) : Json → Option (List (Option Json))
  | object members =>
    if members.all fun member => member.1.isSome then names.mapM (member? members) else none
  | array items =>
    if items.length ≤ names.length then
      some (items.map some ++ List.replicate (names.length - items.length) none)
    else none
  | _ => none

/-- A field that must be there. -/
def required (decode : Decoder α) (room : Nat) : Option Json → Option α
  | some json => decode room json
  | none => none

/-- A field that may be missing. -/
def orElse (decode : Decoder α) (default : α) (room : Nat) : Option Json → Option α
  | some json => decode room json
  | none => some default

end Decoder

end PublicAssembly.Json
