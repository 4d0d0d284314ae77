/-!
# Writing TOML

The written forms of strings, truth values and arrays of strings. A string is written in the first of
these forms that can hold its quotes, backslashes, line breaks and control characters without an
escape: between double quotes, between single quotes, between three double quotes, between three
single quotes. If none can, double quotes and escapes are used, three of them if there is a line
break. A tab between double quotes is always escaped.
-/

namespace PublicAssembly.Toml

/-- The length of the longest run of a character. -/
def longestRun (c : Char) (cs : List Char) : Nat :=
  go 0 0 cs
where
  /-- The greater of the longest run so far and those to come, the current one having a length. -/
  go (current longest : Nat) : List Char → Nat
    | [] => longest
    | d :: rest =>
      if d = c then go (current + 1) (max longest (current + 1)) rest else go 0 longest rest

/-- The character needs an escape in every string: it is a control character, and neither a tab nor
a line break. -/
def isControl (c : Char) : Bool :=
  (c.toNat < 0x20 && c != '\t' && c != '\n') || c.toNat == 0x7F

/-- A digit of a number in base sixteen, in upper case. -/
def upperHexDigit (n : Nat) : Char :=
  (Nat.digitChar n).toUpper

/-- The characters that stand for `c` between double quotes, apart from a line break and a double
quote. -/
def escapedChar (c : Char) : List Char :=
  if c == '\x08' then ['\\', 'b']
  else if c == '\t' then ['\\', 't']
  else if c == '\x0c' then ['\\', 'f']
  else if c == '\r' then ['\\', 'r']
  else if c == '\\' then ['\\', '\\']
  else if isControl c then
    ['\\', 'u', '0', '0', upperHexDigit (c.toNat / 16), upperHexDigit (c.toNat % 16)]
  else [c]

/-- The characters between double quotes on one line. -/
def escapedLine (cs : List Char) : List Char :=
  cs.flatMap fun c =>
    if c == '"' then ['\\', '"'] else if c == '\n' then ['\\', 'n'] else escapedChar c

/-- The characters between three double quotes. A third double quote in a row is escaped. -/
def escapedLines : (quotes : Nat) → List Char → List Char
  | _, [] => []
  | quotes, c :: rest =>
    if c == '"' then
      if quotes < 2 then c :: escapedLines (quotes + 1) rest
      else '\\' :: c :: escapedLines 0 rest
    else (if c == '\n' then [c] else escapedChar c) ++ escapedLines 0 rest

/-- Three quotes, perhaps a line break, the text, and three quotes. -/
def betweenThree (quote : Char) (hasBreak : Bool) (body : List Char) : List Char :=
  let quotes := List.replicate 3 quote
  quotes ++ (if hasBreak then ['\n'] else []) ++ body ++ quotes

/-- The written form of a string. -/
def writeString (text : String) : List Char :=
  let cs := text.toList
  let hasControl := cs.any isControl
  let hasBackslash := cs.contains '\\'
  let hasBreak := cs.contains '\n'
  let double := longestRun '"' cs
  let single := longestRun '\'' cs
  -- the plainest quotes in which nothing needs an escape, and escapes only if there are none
  if !hasControl && !hasBackslash && !hasBreak && double == 0 then
    '"' :: (escapedLine cs ++ ['"'])
  else if !hasControl && !hasBreak && single == 0 then '\'' :: (cs ++ ['\''])
  else if !hasControl && !hasBackslash && double ≤ 2 then
    betweenThree '"' hasBreak (escapedLines 0 cs)
  else if !hasControl && single ≤ 2 then betweenThree '\'' hasBreak cs
  else if hasBreak then betweenThree '"' true (escapedLines 0 cs)
  else '"' :: (escapedLine cs ++ ['"'])

/-- The written form of a truth value. -/
def writeBoolean : Bool → List Char
  | true => ['t', 'r', 'u', 'e']
  | false => ['f', 'a', 'l', 's', 'e']

/-- The written form of an array of strings. Two items or more stand on lines of their own. -/
def writeStrings : List String → List Char
  | [] => ['[', ']']
  | [item] => '[' :: (writeString item ++ [']'])
  | items =>
    ['[', '\n'] ++ items.flatMap (fun item => List.replicate 4 ' ' ++ writeString item ++ [',', '\n']) ++
      [']']

/-- A line that sets a key. -/
def writeEntry (key : String) (value : List Char) : List Char :=
  key.toList ++ [' ', '=', ' '] ++ value ++ ['\n']

/-- A table with its header. -/
def writeSection (header : String) (entries : List (List Char)) : List Char :=
  '[' :: (header.toList ++ [']', '\n'] ++ entries.flatten)

end PublicAssembly.Toml
