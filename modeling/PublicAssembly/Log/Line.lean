import PublicAssembly.Text.Basic

/-!
# Log lines

What a run says about its work, one line at a time, each with a level that says how much it
matters.
-/

namespace PublicAssembly

/-- How much a log line matters. -/
inductive Level where
  /-- A detail, shown on request. -/
  | debug
  /-- A step of the work. -/
  | info
  /-- Something that may not be meant. -/
  | warn
  /-- A failure. -/
  | error
  deriving DecidableEq, Repr

/-- The name of a level in front of a line. -/
def Level.name : Level → String
  | debug => "DEBUG"
  | info => "INFO"
  | warn => "WARN"
  | error => "ERROR"

/-- One line of the log. -/
structure LogLine where
  /-- How much the line matters. -/
  level : Level
  /-- What the line says. -/
  text : String
  deriving DecidableEq, Repr

namespace LogLine

/-- A line with a detail. -/
def debug (text : String) : LogLine := ⟨.debug, text⟩

/-- A line about a step of the work. -/
def info (text : String) : LogLine := ⟨.info, text⟩

/-- A line about something that may not be meant. -/
def warn (text : String) : LogLine := ⟨.warn, text⟩

/-- A line about a failure. -/
def error (text : String) : LogLine := ⟨.error, text⟩

/-- The line as it is shown. -/
def render (line : LogLine) : String :=
  line.level.name ++ " " ++ line.text

end LogLine

/-! ### Lines on a terminal

A terminal takes some control characters for commands. Names in a log line come from outside, so on
a terminal these characters are written as escapes: bell, backspace, form feed, escape and delete
with two digits, and the second block of controls with its code points in braces. Tabs, line
breaks and the other controls stay. -/

open Text (hexDigits)

namespace Terminal

/-- The controls of the first block, and delete, that a terminal takes for commands. -/
def commands : List Char :=
  ['\x07', '\x08', '\x0c', '\x1b', '\x7f']

/-- The character is a control of the second block. -/
def isLateControl (c : Char) : Bool :=
  0x80 ≤ c.toNat && c.toNat ≤ 0x9F

/-- The characters that are written for `c`. -/
def inertChar (c : Char) : List Char :=
  if commands.contains c then '\\' :: 'x' :: hexDigits 2 c.toNat
  else if isLateControl c then ['\\', 'u', '\x7b'] ++ hexDigits 2 c.toNat ++ ['\x7d']
  else [c]

/-- The characters that are written for some others. -/
def inertText (cs : List Char) : List Char :=
  cs.flatMap inertChar

end Terminal

/-- The line as it is shown on a terminal. -/
def LogLine.inert (line : LogLine) : LogLine :=
  { line with text := String.ofList (Terminal.inertText line.text.toList) }

end PublicAssembly
