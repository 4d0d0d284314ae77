import PublicAssembly.Image.Basic

/-!
# List columns

A list column gives each row of one table a run of rows of another: the run begins at the row that
the cell names and ends where the run of the next row begins, or past the last row. The runs must be
in order and lie in the table.
-/

namespace PublicAssembly.Image

open Metadata (Table)

/-- A run of rows, from `first` up to but without `stop`. -/
structure RowRange where
  /-- The first row. -/
  first : Nat
  /-- The row behind the last one. -/
  stop : Nat
  deriving DecidableEq, Repr

namespace RowRange

/-- No rows. -/
def empty : RowRange :=
  ⟨0, 0⟩

/-- The rows of the run, in order. -/
def rows (range : RowRange) : List Nat :=
  List.range' range.first (range.stop - range.first)

/-- The row belongs to the run. -/
def Holds (range : RowRange) (row : Nat) : Prop :=
  range.first ≤ row ∧ row < range.stop

instance (range : RowRange) (row : Nat) : Decidable (range.Holds row) :=
  inferInstanceAs (Decidable (_ ∧ _))

/-- The rows of a run are those that belong to it. -/
theorem mem_rows {range : RowRange} {row : Nat} : row ∈ range.rows ↔ range.Holds row := by
  simp only [rows, Holds, List.mem_range'_1]
  omega

/-- The place of a row in the run. -/
def place? (range : RowRange) (row : Nat) : Option Nat :=
  if range.Holds row then some (row - range.first) else none

end RowRange

/-- The runs of owners whose cells name `starts`, the first of them in row `owner` of the table,
when the other table has rows below `limit`. -/
def rangesFrom (table : Table) (limit : Nat) :
    (owner : Nat) → (starts : List Nat) → Except Fault (List RowRange)
  | _, [] => .ok []
  | owner, first :: rest =>
    let stop := rest.headD limit
    if first = 0 ∨ stop < first ∨ limit < stop then
      .error (.malformed (.badList table owner first stop))
    else do
      let ranges ← rangesFrom table limit (owner + 1) rest
      return ⟨first, stop⟩ :: ranges

/-- The numbers in a column, row after row. -/
def columnValues (image : Image) (table : Table) (column : Nat) : Except Fault (List Nat) :=
  (List.range' 1 (image.rows table)).mapM fun row => image.cell table row column

/-- The runs that a column of the table gives its rows in the other table. -/
def listRanges (image : Image) (table : Table) (column : Nat) (target : Table) :
    Except Fault (List RowRange) := do
  let starts ← image.columnValues table column
  rangesFrom table (image.rows target + 1) 1 starts

end PublicAssembly.Image
