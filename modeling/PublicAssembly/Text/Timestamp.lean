/-!
# Timestamps

A moment as text: the date and the time of the day in UTC, and as many digits of the second as are
needed, in groups of three.
-/

namespace PublicAssembly.Text

/-- A day of the calendar. -/
structure Day where
  /-- The year. -/
  year : Nat
  /-- The month, counted from one. -/
  month : Nat
  /-- The day of the month, counted from one. -/
  day : Nat
  deriving DecidableEq, Repr

/-- The day that is a number of days after the first day of 1970. Years are counted from March on, so
that the leap day is the last one, in eras of 400 years. -/
def Day.ofEpoch (days : Nat) : Day :=
  let shifted := days + 719468
  let era := shifted / 146097
  let ofEra := shifted % 146097
  let yearOfEra := (ofEra - ofEra / 1460 + ofEra / 36524 - ofEra / 146096) / 365
  let ofYear := ofEra - (365 * yearOfEra + yearOfEra / 4 - yearOfEra / 100)
  let fromMarch := (5 * ofYear + 2) / 153
  let month := if fromMarch < 10 then fromMarch + 3 else fromMarch - 9
  { year := era * 400 + yearOfEra + (if month ≤ 2 then 1 else 0)
    month
    day := ofYear - (153 * fromMarch + 2) / 5 + 1 }

example : Day.ofEpoch 0 = ⟨1970, 1, 1⟩ := by decide

example : Day.ofEpoch 19782 = ⟨2024, 2, 29⟩ := by decide

example : Day.ofEpoch 20819 = ⟨2027, 1, 1⟩ := by decide

/-- A number in decimal, filled with zeros on the left up to `width` digits. -/
def padded (width n : Nat) : String :=
  let digits := Nat.toDigits 10 n
  String.ofList (List.replicate (width - digits.length) '0' ++ digits)

/-- The part of a second behind the point, if there is any. -/
def fractionText (nanoseconds : Nat) : String :=
  if nanoseconds = 0 then ""
  else if nanoseconds % 1000000 = 0 then "." ++ padded 3 (nanoseconds / 1000000)
  else if nanoseconds % 1000 = 0 then "." ++ padded 6 (nanoseconds / 1000)
  else "." ++ padded 9 nanoseconds

/-- The moment that is some seconds and nanoseconds after the beginning of 1970. -/
def timestamp (seconds nanoseconds : Nat) : String :=
  let day := Day.ofEpoch (seconds / 86400)
  let ofDay := seconds % 86400
  padded 4 day.year ++ "-" ++ padded 2 day.month ++ "-" ++ padded 2 day.day ++ "T" ++
    padded 2 (ofDay / 3600) ++ ":" ++ padded 2 (ofDay / 60 % 60) ++ ":" ++ padded 2 (ofDay % 60) ++
    fractionText nanoseconds ++ "Z"

end PublicAssembly.Text
