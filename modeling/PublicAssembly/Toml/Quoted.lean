/-!
# TOML strings

Strings stand between quotes. Double quotes admit escapes and single quotes do not; three quotes in a
row begin a string that may hold line breaks.
-/

namespace PublicAssembly.Toml

/-- The character may stand in a comment or, unless it is a quote or begins an escape, in a
string. -/
def isText (c : Char) : Bool :=
  c == '\t' || (0x20 ≤ c.toNat && c.toNat != 0x7F)

/-- The character is a blank within a line. -/
def isBlank (c : Char) : Bool :=
  c == ' ' || c == '\t'

/-- The value of a hexadecimal digit. -/
def hexValue? (c : Char) : Option Nat :=
  if c.isDigit then some (c.toNat - '0'.toNat)
  else if 'a' ≤ c ∧ c ≤ 'f' then some (c.toNat - 'a'.toNat + 10)
  else if 'A' ≤ c ∧ c ≤ 'F' then some (c.toNat - 'A'.toNat + 10)
  else none

/-- The character whose code point the hexadecimal digits give. -/
def charOfHex? (digits : List Char) : Option Char := do
  let values ← digits.mapM hexValue?
  let point := values.foldl (fun n d => 16 * n + d) 0
  if point.isValidChar then some (Char.ofNat point) else none

/-- The character that an escape of one letter stands for. -/
def shortEscape? : Char → Option Char
  | 'b' => some '\x08'
  | 't' => some '\t'
  | 'n' => some '\n'
  | 'f' => some '\x0c'
  | 'r' => some '\r'
  | '"' => some '"'
  | '\\' => some '\\'
  | _ => none

/-- The characters begin with a line break, perhaps behind blanks. -/
def endsLine (cs : List Char) : Bool :=
  match cs.dropWhile isBlank with
  | '\n' :: _ => true
  | '\r' :: '\n' :: _ => true
  | _ => false

/-- The text up to a double quote, and the characters behind the quote. -/
def readBasic? : List Char → Option (List Char × List Char)
  | [] => none
  | '"' :: rest => some ([], rest)
  | '\\' :: 'u' :: a :: b :: c :: d :: rest => do
    let first ← charOfHex? [a, b, c, d]
    let (text, rest) ← readBasic? rest
    return (first :: text, rest)
  | '\\' :: 'U' :: a :: b :: c :: d :: e :: f :: g :: h :: rest => do
    let first ← charOfHex? [a, b, c, d, e, f, g, h]
    let (text, rest) ← readBasic? rest
    return (first :: text, rest)
  | '\\' :: letter :: rest => do
    let first ← shortEscape? letter
    let (text, rest) ← readBasic? rest
    return (first :: text, rest)
  | c :: rest =>
    if isText c then do
      let (text, rest) ← readBasic? rest
      return (c :: text, rest)
    else none

/-- The text up to a single quote, and the characters behind the quote. -/
def readLiteral? : List Char → Option (List Char × List Char)
  | [] => none
  | '\'' :: rest => some ([], rest)
  | c :: rest =>
    if isText c then do
      let (text, rest) ← readLiteral? rest
      return (c :: text, rest)
    else none

/-- The quotes, at most two, that are left of a run of quotes behind the three that end a string:
they belong to the text. -/
def leftoverQuotes (quote : Char) : List Char → List Char × List Char
  | a :: b :: rest =>
    if a = quote then
      if b = quote then ([quote, quote], rest) else ([quote], b :: rest)
    else ([], a :: b :: rest)
  | [a] => if a = quote then ([quote], []) else ([], [a])
  | [] => ([], [])

/-- The text up to three double quotes, and the characters behind them. A backslash at the end of a
line takes away the line break and all blanks and line breaks behind it, which is what
`skipping` is for. -/
def readBasicLines? (skipping : Bool) : List Char → Option (List Char × List Char)
  | [] => none
  | '"' :: '"' :: '"' :: rest => some (leftoverQuotes '"' rest)
  | '\\' :: 'u' :: a :: b :: c :: d :: rest => do
    let first ← charOfHex? [a, b, c, d]
    let (text, rest) ← readBasicLines? false rest
    return (first :: text, rest)
  | '\\' :: 'U' :: a :: b :: c :: d :: e :: f :: g :: h :: rest => do
    let first ← charOfHex? [a, b, c, d, e, f, g, h]
    let (text, rest) ← readBasicLines? false rest
    return (first :: text, rest)
  | '\\' :: letter :: rest =>
    if endsLine (letter :: rest) then readBasicLines? true (letter :: rest)
    else do
      let first ← shortEscape? letter
      let (text, rest) ← readBasicLines? false rest
      return (first :: text, rest)
  | '\r' :: '\n' :: rest =>
    if skipping then readBasicLines? true rest
    else do
      let (text, rest) ← readBasicLines? false rest
      return ('\n' :: text, rest)
  | c :: rest =>
    if skipping && (isBlank c || c == '\n') then readBasicLines? true rest
    else if isText c || c == '\n' then do
      let (text, rest) ← readBasicLines? false rest
      return (c :: text, rest)
    else none

/-- The text up to three single quotes, and the characters behind them. -/
def readLiteralLines? : List Char → Option (List Char × List Char)
  | [] => none
  | '\'' :: '\'' :: '\'' :: rest => some (leftoverQuotes '\'' rest)
  | '\r' :: '\n' :: rest => do
    let (text, rest) ← readLiteralLines? rest
    return ('\n' :: text, rest)
  | c :: rest =>
    if isText c || c == '\n' then do
      let (text, rest) ← readLiteralLines? rest
      return (c :: text, rest)
    else none

/-- The characters without a line break at the front. -/
def skipLineBreak : List Char → List Char
  | '\n' :: rest => rest
  | '\r' :: '\n' :: rest => rest
  | cs => cs

/-- The string of one line at the front of some characters, and the characters behind it. -/
def readLineString? : List Char → Option (String × List Char)
  | '"' :: rest => (readBasic? rest).map fun (text, rest) => (String.ofList text, rest)
  | '\'' :: rest => (readLiteral? rest).map fun (text, rest) => (String.ofList text, rest)
  | _ => none

/-- The string at the front of some characters, and the characters behind it. -/
def readString? : List Char → Option (String × List Char)
  | '"' :: '"' :: '"' :: rest =>
    (readBasicLines? false (skipLineBreak rest)).map fun (text, rest) =>
      (String.ofList text, rest)
  | '\'' :: '\'' :: '\'' :: rest =>
    (readLiteralLines? (skipLineBreak rest)).map fun (text, rest) => (String.ofList text, rest)
  | cs => readLineString? cs

end PublicAssembly.Toml
