import PublicAssembly.Text.Segments

/-!
# TOML numbers and dates

Which characters form a number or a date. No value is computed beyond what decides that: an integer
must fit in 64 bits with its sign, a positive number with a fraction must not be too large, and a
date must be one of the calendar.
-/

namespace PublicAssembly.Toml

open PublicAssembly.Text (segments)

/-! ### Numbers -/

/-- The character can occur in a number. -/
def isNumeric (c : Char) : Bool :=
  c.isAlphanum || c == '_' || c == '+' || c == '-' || c == '.'

/-- The characters are digits with single underscores between them. -/
def isDigitGroup (isDigit : Char → Bool) (cs : List Char) : Bool :=
  (segments '_' cs).all fun group => !group.isEmpty && group.all isDigit

/-- The characters are decimal digits without a zero in front. -/
def isWhole (cs : List Char) : Bool :=
  cs == ['0'] || (cs.head? != some '0' && isDigitGroup Char.isDigit cs)

/-- The value of a digit in a base up to sixteen. -/
def digitValue (c : Char) : Nat :=
  if c.isDigit then c.toNat - '0'.toNat else c.toLower.toNat - 'a'.toNat + 10

/-- The number that digits stand for; underscores do not count. -/
def digitsValue (base : Nat) (cs : List Char) : Nat :=
  (cs.filter (· != '_')).foldl (fun n c => base * n + digitValue c) 0

/-- The characters without a sign at the front, and whether it was a minus. -/
def splitSign : List Char → Bool × List Char
  | '-' :: rest => (true, rest)
  | '+' :: rest => (false, rest)
  | cs => (false, cs)

/-- The characters are an integer that fits in 64 bits. -/
def isInteger (cs : List Char) : Bool :=
  let based (base : Nat) (digits : List Char) (isDigit : Char → Bool) : Bool :=
    isDigitGroup isDigit digits && decide (digitsValue base digits < 1 <<< 63)
  match cs with
  | '0' :: 'x' :: digits =>
    based 16 digits fun c => c.isDigit || ('a' ≤ c && c ≤ 'f') || ('A' ≤ c && c ≤ 'F')
  | '0' :: 'o' :: digits => based 8 digits fun c => '0' ≤ c && c ≤ '7'
  | '0' :: 'b' :: digits => based 2 digits fun c => c == '0' || c == '1'
  | _ =>
    let (negative, digits) := splitSign cs
    let bound := if negative then 1 <<< 63 + 1 else 1 <<< 63
    isWhole digits && decide (digitsValue 10 digits < bound)

/-- The number `digits * 10 ^ exponent` is so large that the nearest number of 64 bits with a
fraction would be infinite. -/
def isHuge (digits : Nat) (exponent : Int) : Bool :=
  let size := (Nat.toDigits 10 digits).length + exponent
  let bound := 1 <<< 1024 - 1 <<< 970
  if digits = 0 then false
  else if 400 < size then true
  else if size < 300 then false
  else if 0 ≤ exponent then decide (bound ≤ digits * Nat.pow 10 exponent.toNat)
  else decide (bound * Nat.pow 10 (-exponent).toNat ≤ digits)

/-- The characters are a number with a fraction or an exponent, and the number is not too large. -/
def isFraction (cs : List Char) : Bool :=
  let (negative, digits) := splitSign cs
  let isExponentMark (c : Char) : Bool := c == 'e' || c == 'E'
  let mantissa := digits.takeWhile fun c => !isExponentMark c
  let whole := mantissa.takeWhile (· != '.')
  let fraction := mantissa.drop (whole.length + 1)
  let hasFraction := whole.length < mantissa.length
  let hasExponent := mantissa.length < digits.length
  let (below, exponent) := splitSign (digits.drop (mantissa.length + 1))
  let size := (fraction.filter (· != '_')).length
  -- the digits behind the point count against the exponent
  let power : Int := digitsValue 10 exponent
  isWhole whole && (hasFraction || hasExponent) &&
    (!hasFraction || isDigitGroup Char.isDigit fraction) &&
    (!hasExponent || isDigitGroup Char.isDigit exponent) &&
    (negative || !isHuge (digitsValue 10 (whole ++ fraction))
      ((if below then -power else power) - size))

/-- The characters are a number. -/
def isNumber (cs : List Char) : Bool :=
  let (_, unsigned) := splitSign cs
  isInteger cs || isFraction cs || unsigned == ['i', 'n', 'f'] || unsigned == ['n', 'a', 'n']

/-! ### Dates -/

/-- The number of the given count of decimal digits at the front, and the characters behind. -/
def readDigits? (count : Nat) (cs : List Char) : Option (Nat × List Char) :=
  let digits := cs.take count
  if digits.length = count ∧ digits.all Char.isDigit then
    some (digitsValue 10 digits, cs.drop count)
  else none

/-- The characters behind the one that must be in front. -/
def skipChar? (wanted : Char) : List Char → Option (List Char)
  | c :: rest => if c = wanted then some rest else none
  | [] => none

/-- The year has a 29th of February. -/
def isLeapYear (year : Nat) : Bool :=
  year % 4 == 0 && (year % 100 != 0 || year % 400 == 0)

/-- The number of days of a month. -/
def daysOfMonth (year month : Nat) : Nat :=
  if month = 2 then if isLeapYear year then 29 else 28
  else if month = 4 ∨ month = 6 ∨ month = 9 ∨ month = 11 then 30
  else 31

/-- The characters behind a date of the calendar. -/
def skipDay? (cs : List Char) : Option (List Char) := do
  let (year, cs) ← readDigits? 4 cs
  let cs ← skipChar? '-' cs
  let (month, cs) ← readDigits? 2 cs
  let cs ← skipChar? '-' cs
  let (day, cs) ← readDigits? 2 cs
  if 1 ≤ month ∧ month ≤ 12 ∧ 1 ≤ day ∧ day ≤ daysOfMonth year month then some cs else none

/-- The characters behind hours and minutes. -/
def skipHourMinute? (cs : List Char) : Option (List Char) := do
  let (hour, cs) ← readDigits? 2 cs
  let cs ← skipChar? ':' cs
  let (minute, cs) ← readDigits? 2 cs
  if hour ≤ 23 ∧ minute ≤ 59 then some cs else none

/-- The characters behind a time of the day. -/
def skipTime? (cs : List Char) : Option (List Char) := do
  let cs ← skipHourMinute? cs
  let cs ← skipChar? ':' cs
  let (second, cs) ← readDigits? 2 cs
  if second ≤ 60 then
    match cs with
    | '.' :: c :: rest =>
      if c.isDigit then some (rest.dropWhile Char.isDigit) else some ('.' :: c :: rest)
    | cs => some cs
  else none

/-- The characters behind the difference of a local time, if there is one. -/
def skipOffset (cs : List Char) : List Char :=
  match cs with
  | 'Z' :: rest => rest
  | 'z' :: rest => rest
  | '+' :: rest => (skipHourMinute? rest).getD cs
  | '-' :: rest => (skipHourMinute? rest).getD cs
  | _ => cs

/-- The character may stand between a date and a time. -/
def isDateMark (c : Char) : Bool :=
  c == 'T' || c == 't' || c == ' '

/-- The characters behind a date, a date with a time, or a time. -/
def skipDate? (cs : List Char) : Option (List Char) :=
  match skipDay? cs with
  | none => skipTime? cs
  | some (mark :: rest) =>
    if isDateMark mark then
      match skipTime? rest with
      | some rest => some (skipOffset rest)
      | none => some (mark :: rest)
    else some (mark :: rest)
  | some [] => some []

end PublicAssembly.Toml
