import PublicAssembly.Toml.Build
import PublicAssembly.Toml.Basic
import PublicAssembly.Toml.Quoted
import PublicAssembly.Toml.Scalar

/-!
# Reading TOML

A text is a sequence of statements on lines of their own: a key with its value, or the header of a
table. Lines without content may stand between them. Each statement is carried out as soon as it is
read. Arrays and tables between braces are nested less than `depthBound` deep, and fewer than
`depthBound` keys are joined by points.

A loop goes on only if something was taken from the text, so every loop comes to an end. What is said
of settings holds for every function from texts to tables in the place of `read`.
-/

namespace PublicAssembly.Toml

open PublicAssembly.Text (Position)

/-- The nesting of values, and the number of keys joined by points, stay below this. -/
def depthBound : Nat :=
  80

/-! ### Keys -/

/-- The characters without the blanks at the front. -/
def skipBlanks (cs : List Char) : List Char :=
  cs.dropWhile isBlank

/-- The character can occur in a key without quotes. -/
def isBare (c : Char) : Bool :=
  c.isAlphanum || c == '_' || c == '-'

/-- The key at the front of some characters, and the characters behind it. -/
def readKey? (cs : List Char) : Option (String × List Char) :=
  match cs with
  | '"' :: _ => readLineString? cs
  | '\'' :: _ => readLineString? cs
  | _ =>
    let bare := cs.takeWhile isBare
    if bare.isEmpty then none else some (String.ofList bare, cs.dropWhile isBare)

/-- The keys joined by points at the front of some characters, at most `room`, and the characters
behind them and the blanks that follow. -/
def readKeys? : (room : Nat) → List Char → Option (List String × List Char)
  | 0, _ => none
  | room + 1, cs => do
    let (key, cs) ← readKey? (skipBlanks cs)
    match skipBlanks cs with
    | '.' :: rest => do
      let (keys, cs) ← readKeys? room rest
      return (key :: keys, cs)
    | cs => return ([key], cs)

/-- The path of some keys and the key behind it. -/
def splitLast? : List String → Option (List String × String)
  | [] => none
  | key :: keys =>
    match splitLast? keys with
    | none => some ([], key)
    | some (path, last) => some (key :: path, last)

/-! ### Blanks and comments -/

/-- The characters behind a comment. -/
def skipComment : List Char → List Char
  | '#' :: rest => rest.dropWhile isText
  | cs => cs

/-- What follows the front that a test accepts is no longer than the whole. -/
theorem length_dropWhile_le (p : Char → Bool) (cs : List Char) :
    (cs.dropWhile p).length ≤ cs.length :=
  (List.dropWhile_sublist p).length_le

/-- The characters behind the blanks, the comments and the line breaks at the front. A comment
ends with its line. -/
def skipGap? (cs : List Char) : Option (List Char) :=
  match cs with
  | '\n' :: rest => skipGap? rest
  | '\r' :: '\n' :: rest => skipGap? rest
  | '#' :: rest =>
    have := length_dropWhile_le isText rest
    match _h : rest.dropWhile isText with
    | '\n' :: more => skipGap? more
    | '\r' :: '\n' :: more => skipGap? more
    | _ => none
  | c :: rest => if isBlank c then skipGap? rest else some (c :: rest)
  | [] => some []
termination_by cs.length
decreasing_by all_goals simp_all <;> omega

/-- The characters behind the end of a statement: blanks, perhaps a comment, and the end of the
line or of the text. -/
def endStatement? (cs : List Char) : Option (List Char) :=
  match skipComment (skipBlanks cs) with
  | [] => some []
  | '\n' :: rest => some rest
  | '\r' :: '\n' :: rest => some rest
  | _ => none

/-- The end of a statement takes something from a text. -/
theorem length_lt_of_endStatement? {c : Char} {cs rest : List Char}
    (h : endStatement? (c :: cs) = some rest) : rest.length < (c :: cs).length := by
  have hblanks := length_dropWhile_le isBlank (c :: cs)
  have hcomment (cs : List Char) : (skipComment cs).length ≤ cs.length := by
    unfold skipComment
    split
    · exact Nat.le_succ_of_le (length_dropWhile_le isText _)
    · exact Nat.le_refl _
  -- blanks and a comment only take away, and the line break takes one more
  have hleft := Nat.le_trans (hcomment _) hblanks
  unfold endStatement? skipBlanks at h
  split at h
  · cases h
    exact Nat.zero_lt_succ _
  · next hline =>
    cases h
    rw [hline] at hleft
    exact hleft
  · next hline =>
    cases h
    rw [hline] at hleft
    exact Nat.lt_of_succ_lt hleft
  · cases h

/-- The characters behind the lines without content at the front. -/
def skipBlankLines : List Char → List Char
  | [] => []
  | c :: cs =>
    match _h : endStatement? (c :: cs) with
    | some rest => skipBlankLines rest
    | none => c :: cs
termination_by cs => cs.length
decreasing_by exact length_lt_of_endStatement? _h

/-! ### Values -/

/-- What is read at the front of some characters, and the characters behind it. -/
abbrev Reader (α : Type) := List Char → Option (α × List Char)

/-- The items up to a closing bracket, with commas between them and perhaps one behind the last. -/
def readItems? (item : Reader Value) (cs : List Char) : Option (List Value × List Char) :=
  match skipGap? cs with
  | none => none
  | some (']' :: rest) => some ([], rest)
  | some start =>
    match item start with
    | none => none
    | some (first, rest) =>
      match skipGap? rest with
      | some (']' :: rest) => some ([first], rest)
      | some (',' :: rest) =>
        if _h : rest.length < cs.length then
          match readItems? item rest with
          | some (others, rest) => some (first :: others, rest)
          | none => none
        else none
      | _ => none
termination_by cs.length

/-- A statement that sets a key. -/
structure Assignment where
  /-- The keys with points behind them. -/
  path : List String
  /-- The key that is set. -/
  key : String
  /-- The value. -/
  value : Value

/-- The keys, the equals sign and the value at the front of some characters. -/
def readAssignment? (value : Reader Value) : Reader Assignment := fun cs => do
  let (keys, cs) ← readKeys? (depthBound - 1) cs
  let (path, key) ← splitLast? keys
  match cs with
  | '=' :: rest => do
    let (value, cs) ← value (skipBlanks rest)
    return (⟨path, key, value⟩, cs)
  | _ => none

/-- The assignments up to a closing brace, with commas between them. There is at least one. -/
def readAssignments? (value : Reader Value) (cs : List Char) :
    Option (List Assignment × List Char) :=
  match readAssignment? value cs with
  | none => none
  | some (first, rest) =>
    match skipBlanks rest with
    | '\x7d' :: rest => some ([first], rest)
    | ',' :: rest =>
      if _h : rest.length < cs.length then
        match readAssignments? value rest with
        | some (others, rest) => some (first :: others, rest)
        | none => none
      else none
    | _ => none
termination_by cs.length

/-- The table that some assignments make. -/
def inlineTable? (assignments : List Assignment) : Option Value := do
  let table ← assignments.foldlM (fun table (a : Assignment) => table.assign a.path a.key a.value)
    Table.empty
  return .table .inline table.entries

/-- The number or date at the front of some characters. -/
def readScalar? : Reader Value := fun cs =>
  match skipDate? cs with
  | some rest => some (.date, rest)
  | none =>
    if isNumber (cs.takeWhile isNumeric) then some (.number, cs.dropWhile isNumeric) else none

/-- The value at the front of some characters, in which arrays and tables are nested at most `room`
deep. -/
def readValue? : (room : Nat) → Reader Value
  | room, cs =>
    match cs with
    | 't' :: 'r' :: 'u' :: 'e' :: rest => some (.boolean true, rest)
    | 'f' :: 'a' :: 'l' :: 's' :: 'e' :: rest => some (.boolean false, rest)
    | '"' :: _ => (readString? cs).map fun (text, rest) => (.string text, rest)
    | '\'' :: _ => (readString? cs).map fun (text, rest) => (.string text, rest)
    -- brackets and braces take a level, and a scalar takes none
    | '[' :: rest =>
      match room with
      | 0 => none
      | room + 1 =>
        (readItems? (readValue? room) rest).map fun (items, rest) => (.array items, rest)
    | '\x7b' :: rest =>
      match room with
      | 0 => none
      | room + 1 =>
        match skipBlanks rest with
        | '\x7d' :: rest => some (.table .inline [], rest)
        | start => do
          let (assignments, rest) ← readAssignments? (readValue? room) start
          let table ← inlineTable? assignments
          return (table, rest)
    | _ => readScalar? cs

/-! ### Statements -/

/-- One statement of a text. -/
inductive Statement where
  /-- A key is set. -/
  | assign (assignment : Assignment)
  /-- A table begins. -/
  | header (path : List String) (key : String)
  /-- One more table with the same header begins. -/
  | nextHeader (path : List String) (key : String)

/-- The keys of a header and the characters behind them. -/
def readHeader? (cs : List Char) : Option (List String × String × List Char) := do
  let (keys, cs) ← readKeys? (depthBound - 1) cs
  let (path, key) ← splitLast? keys
  return (path, key, cs)

/-- The statement at the front of some characters, and the characters behind its line. -/
def readStatement? (cs : List Char) : Option (Statement × List Char) :=
  match skipBlanks cs with
  | '[' :: '[' :: rest =>
    match readHeader? rest with
    | some (path, key, ']' :: ']' :: rest) =>
      (endStatement? rest).map fun rest => (.nextHeader path key, rest)
    | _ => none
  | '[' :: rest =>
    match readHeader? rest with
    | some (path, key, ']' :: rest) =>
      (endStatement? rest).map fun rest => (.header path key, rest)
    | _ => none
  | start => do
    let (assignment, rest) ← readAssignment? (readValue? (depthBound - 1)) start
    let rest ← endStatement? rest
    return (.assign assignment, rest)

/-- What has been built, and the keys of the header that assignments belong to. -/
structure Building where
  /-- The table of the whole text. -/
  table : Table
  /-- The keys of the last header. -/
  header : List String

/-- Carry out a statement. -/
def Building.step? (building : Building) : Statement → Option Building
  | .assign a =>
    (building.table.assignUnder building.header a.path a.key a.value).map fun table =>
      { building with table }
  | .header path key =>
    (building.table.open? path key).map fun table => ⟨table, path ++ [key]⟩
  | .nextHeader path key =>
    (building.table.openNext? path key).map fun table => ⟨table, path ++ [key]⟩

/-- Carry out the statements of the remaining text. The error says what is wrong and which
characters remain. -/
def Building.run (building : Building) (cs : List Char) :
    Except (Problem × List Char) Building :=
  let start := skipBlankLines cs
  if start.isEmpty then .ok building
  else
    match readStatement? start with
    | none => .error (.unreadable, start)
    | some (statement, rest) =>
      match building.step? statement with
      | none => .error (.conflict, start)
      | some building =>
        if _h : rest.length < cs.length then building.run rest
        else .error (.unreadable, start)
termination_by cs.length

/-- The characters without a byte order mark at the front. -/
def skipMark : List Char → List Char
  | '\ufeff' :: rest => rest
  | cs => cs

/-- The entries of the table that a text stands for. -/
def read (text : String) : Except Fault (List (String × Value)) :=
  let cs := skipMark text.toList
  match Building.run ⟨.empty, []⟩ cs with
  | .ok building => .ok building.table.entries
  | .error (problem, left) => .error ⟨problem, Position.beforeLast cs left.length⟩

end PublicAssembly.Toml
