/-!
# Text

Blank characters and cutting them off, positions in a text for messages about it, and numbers in
hexadecimal.
-/

namespace PublicAssembly.Text

/-! ### Blank characters -/

/-- The character has the Unicode property `White_Space`. -/
def isBlank (c : Char) : Bool :=
  let n := c.toNat
  (0x09 ≤ n && n ≤ 0x0D) || n == 0x20 || n == 0x85 || n == 0xA0 || n == 0x1680 ||
    (0x2000 ≤ n && n ≤ 0x200A) || n == 0x2028 || n == 0x2029 || n == 0x202F || n == 0x205F ||
    n == 0x3000

/-- The characters without the blanks at the end. -/
def dropBlankEnd (cs : List Char) : List Char :=
  (cs.reverse.dropWhile isBlank).reverse

/-- The characters without the blanks at either end. -/
def trimChars (cs : List Char) : List Char :=
  dropBlankEnd (cs.dropWhile isBlank)

/-- The text without the blanks at either end. -/
def trim (s : String) : String :=
  String.ofList (trimChars s.toList)

/-! ### Positions -/

/-- A place in a text. -/
structure Position where
  /-- The line, counted from one. -/
  line : Nat
  /-- The column, counted from one. -/
  column : Nat
  deriving DecidableEq, Repr

namespace Position

/-- The place where a text begins. -/
def start : Position :=
  ⟨1, 1⟩

/-- The place behind a character. -/
def next (position : Position) (c : Char) : Position :=
  if c == '\n' then ⟨position.line + 1, 1⟩ else ⟨position.line, position.column + 1⟩

/-- The place behind some characters. -/
def after (cs : List Char) : Position :=
  cs.foldl next start

/-- The place in a text where the last `remaining` characters begin. -/
def beforeLast (text : List Char) (remaining : Nat) : Position :=
  after (text.take (text.length - remaining))

@[simp]
theorem after_nil : after [] = start := rfl

end Position

/-! ### Hexadecimal numbers

Natural numbers in lower-case hexadecimal, with the mark `0x` and at least a given number of digits:
the form in which offsets, table numbers and tokens appear in messages. -/

/-- The hexadecimal digits of `n`, filled with zeros on the left up to `digits` characters. -/
def hexDigits (digits n : Nat) : List Char :=
  let shown := Nat.toDigits 16 n
  List.replicate (digits - shown.length) '0' ++ shown

/-- `n` in hexadecimal after the mark `0x`, with at least `digits` digits. -/
def hex (n : Nat) (digits : Nat := 1) : String :=
  "0x" ++ String.ofList (hexDigits digits n)

end PublicAssembly.Text
