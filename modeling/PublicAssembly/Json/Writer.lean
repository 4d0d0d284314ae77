import PublicAssembly.Json.Basic

/-!
# Writing JSON

The written form of a value: each item of an array and each member of an object on a line of its
own, two spaces deeper than the container. In a string only quotes, backslashes and control
characters are escaped.
-/

namespace PublicAssembly.Json

/-- The characters that stand for `c` in a string. -/
def escapedChar (c : Char) : List Char :=
  if c == '"' then ['\\', '"']
  else if c == '\\' then ['\\', '\\']
  else if c == '\x08' then ['\\', 'b']
  else if c == '\x0c' then ['\\', 'f']
  else if c == '\n' then ['\\', 'n']
  else if c == '\r' then ['\\', 'r']
  else if c == '\t' then ['\\', 't']
  else if c.toNat < 0x20 then
    ['\\', 'u', '0', '0', Nat.digitChar (c.toNat / 16), Nat.digitChar (c.toNat % 16)]
  else [c]

/-- The written form of a string. One that is no sequence of characters is written as half a
surrogate pair. -/
def writeString : Option String → List Char
  | some text => '"' :: (text.toList.flatMap escapedChar ++ ['"'])
  | none => ['"', '\\', 'u', 'd', '8', '0', '0', '"']

/-- A line break and the indentation of a depth. -/
def newline (depth : Nat) : List Char :=
  '\n' :: List.replicate (2 * depth) ' '

mutual

/-- The written form of a value at a depth, in front of what comes behind it. A number that is no
integer is written as zero with a minus. -/
def write (depth : Nat) (behind : List Char) : Json → List Char
  | null => 'n' :: 'u' :: 'l' :: 'l' :: behind
  | bool true => 't' :: 'r' :: 'u' :: 'e' :: behind
  | bool false => 'f' :: 'a' :: 'l' :: 's' :: 'e' :: behind
  | integer (.ofNat value) => Nat.toDigits 10 value ++ behind
  | integer (.negSucc value) => '-' :: (Nat.toDigits 10 (value + 1) ++ behind)
  | otherNumber => '-' :: '0' :: behind
  | string text => writeString text ++ behind
  | array [] => '[' :: ']' :: behind
  -- the first item is written in front of the others, and these in front of the closing bracket
  | array (item :: items) =>
    '[' :: (newline (depth + 1) ++ write (depth + 1) (writeItems (depth + 1)
      (newline depth ++ ']' :: behind) items) item)
  | object [] => '\x7b' :: '\x7d' :: behind
  | object ((key, value) :: members) =>
    '\x7b' :: (newline (depth + 1) ++ (writeString key ++ ':' :: ' ' :: write (depth + 1)
      (writeMembers (depth + 1) (newline depth ++ '\x7d' :: behind) members) value))

/-- The written form of the items behind the first one. -/
def writeItems (depth : Nat) (behind : List Char) : List Json → List Char
  | [] => behind
  | item :: items =>
    ',' :: (newline depth ++ write depth (writeItems depth behind items) item)

/-- The written form of the members behind the first one. -/
def writeMembers (depth : Nat) (behind : List Char) :
    List (Option String × Json) → List Char
  | [] => behind
  | (key, value) :: members =>
    ',' :: (newline depth ++ (writeString key ++ ':' :: ' ' ::
      write depth (writeMembers depth behind members) value))

end

/-- The text of a value. -/
def render (value : Json) : String :=
  String.ofList (write 0 [] value)

end PublicAssembly.Json
