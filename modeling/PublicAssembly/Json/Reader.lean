import PublicAssembly.Json.Basic
import PublicAssembly.Json.Token

/-!
# Reading JSON

The tokens of a text are put together one after another. What has been read so far is kept as the
containers that are still open, and the state says what may come next. Any depth of nesting is
read; it is the reading of a document that looks only so deep. What is relied on of both together is
stated as `Document.ReadsDocuments`.
-/

namespace PublicAssembly.Json

open PublicAssembly.Text (Position)

/-- A container that is still open while one of its values is read. -/
inductive OpenContainer where
  /-- An array, with the items before, the last first. -/
  | array (items : List Json)
  /-- An object, with the members before, the last first, and the key of the value. -/
  | object (members : List (Option String × Json)) (key : Option String)

/-- What has been read, innermost container first, and what may come next. -/
inductive Reading where
  /-- A value must come. -/
  | value (around : List OpenContainer)
  /-- An array was opened; a value or the end of the array must come. -/
  | firstItem (around : List OpenContainer)
  /-- An object was opened; a key or the end of the object must come. -/
  | firstKey (around : List OpenContainer)
  /-- A member of an object ended with a comma; a key must come. -/
  | nextKey (members : List (Option String × Json)) (around : List OpenContainer)
  /-- A key was read; a colon must come. -/
  | colon (members : List (Option String × Json)) (key : Option String)
    (around : List OpenContainer)
  /-- A value was read. -/
  | behind (value : Json) (around : List OpenContainer)

namespace Reading

/-- Begin a value. -/
def begin? (around : List OpenContainer) : Token → Option Reading
  | .null => some (behind .null around)
  | .bool b => some (behind (.bool b) around)
  | .integer n => some (behind (.integer n) around)
  | .otherNumber => some (behind .otherNumber around)
  | .string text => some (behind (.string text) around)
  | .openArray => some (firstItem around)
  | .openObject => some (firstKey around)
  | _ => none

/-- Go on with the next token. -/
def step? : Reading → Token → Option Reading
  | value around, token => begin? around token
  | firstItem around, .closeArray => some (behind (.array []) around)
  | firstItem around, token => begin? (.array [] :: around) token
  | firstKey around, .closeObject => some (behind (.object []) around)
  | firstKey around, .string key => some (colon [] key around)
  | firstKey _, _ => none
  | nextKey members around, .string key => some (colon members key around)
  | nextKey _ _, _ => none
  | colon members key around, .colon => some (value (.object members key :: around))
  | colon _ _ _, _ => none
  -- what is in an open container so far is kept in reverse
  | behind item (.array items :: around), .comma =>
    some (value (.array (item :: items) :: around))
  | behind item (.array items :: around), .closeArray =>
    some (behind (.array (item :: items).reverse) around)
  | behind item (.object members key :: around), .comma =>
    some (nextKey ((key, item) :: members) around)
  | behind item (.object members key :: around), .closeObject =>
    some (behind (.object ((key, item) :: members).reverse) around)
  | behind _ _, _ => none

/-- The value, if nothing is missing. -/
def finished? : Reading → Option Json
  | behind item [] => some item
  | _ => none

/-- Go on with some tokens. The error is the characters from the token on that cannot come. -/
def steps : Reading → List (Token × List Char) → Except (List Char) Reading
  | state, [] => .ok state
  | state, (token, place) :: rest =>
    match state.step? token with
    | some state => steps state rest
    | none => .error place

/-- Going on with two lists of tokens is going on with the first and then with the second. -/
theorem steps_append (state : Reading) (ts us : List (Token × List Char)) :
    state.steps (ts ++ us) = (state.steps ts).bind fun state => state.steps us := by
  induction ts generalizing state with
  | nil => rfl
  | cons t ts ih =>
    simp only [List.cons_append, steps]
    split
    · exact ih _
    · rfl

end Reading

/-- The value of a text. -/
def read (cs : List Char) : Except Fault Json :=
  match Token.readAll cs with
  | .error left => .error ⟨.unreadable, Position.beforeLast cs left.length⟩
  | .ok tokens =>
    match (Reading.value []).steps tokens with
    | .error left => .error ⟨.misplaced, Position.beforeLast cs left.length⟩
    | .ok state =>
      match state.finished? with
      | some value => .ok value
      | none => .error ⟨.unfinished, Position.after cs⟩

end PublicAssembly.Json
