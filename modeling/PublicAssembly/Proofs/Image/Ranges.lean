import PublicAssembly.Image.Members
import PublicAssembly.Proofs.Reading

/-!
# Runs share nothing

The runs that a list column gives its rows lie one behind the other without a gap, from the row
that the first cell names to the end of the table. So a row belongs to one run at most, and which
rows have an owner is said by the first cell alone.

## Main statements

* `flatMap_rows`: the rows of all runs, in order;
* `nodup_flatMap_rows`: no row belongs to two runs;
* `listRanges_spec`: what is known of the runs of a list column.
-/

namespace PublicAssembly.Image

open Metadata (Table)
open Reading

variable {table : Table} {limit owner : Nat} {starts : List Nat} {ranges : List RowRange}

/-- What it takes to read the runs of some owners. -/
theorem rangesFrom_cons_eq_ok_iff {first : Nat} {rest : List Nat} :
    rangesFrom table limit owner (first :: rest) = .ok ranges ↔
      0 < first ∧ first ≤ rest.headD limit ∧ rest.headD limit ≤ limit ∧
        ∃ others, rangesFrom table limit (owner + 1) rest = .ok others ∧
          ranges = ⟨first, rest.headD limit⟩ :: others := by
  simp only [rangesFrom, ite_error_eq_ok_iff, bind_eq_ok_iff, pure_eq_ok_iff, not_or, Nat.not_lt,
    Nat.pos_iff_ne_zero, and_assoc, eq_comm (a := ranges)]

/-- Each run goes from one start to the next one. -/
theorem getElem?_rangesFrom (h : rangesFrom table limit owner starts = .ok ranges) (i : Nat) :
    ranges[i]? = starts[i]?.map fun first => ⟨first, starts.getD (i + 1) limit⟩ := by
  induction starts generalizing owner ranges i with
  | nil =>
    cases h
    rfl
  | cons first rest ih =>
    obtain ⟨-, -, -, others, hothers, rfl⟩ := rangesFrom_cons_eq_ok_iff.1 h
    cases i with
    | zero => cases rest <;> rfl
    | succ i =>
      rw [List.getElem?_cons_succ, List.getElem?_cons_succ, ih hothers]
      rfl

/-- Each run begins at a row, and ends in the table. -/
theorem bounds_of_rangesFrom (h : rangesFrom table limit owner starts = .ok ranges)
    {range : RowRange} (hrange : range ∈ ranges) :
    0 < range.first ∧ range.first ≤ range.stop ∧ range.stop ≤ limit := by
  induction starts generalizing owner ranges with
  | nil =>
    cases h
    cases hrange
  | cons first rest ih =>
    obtain ⟨hpos, hle, hstop, others, hothers, rfl⟩ := rangesFrom_cons_eq_ok_iff.1 h
    rcases List.mem_cons.1 hrange with rfl | hrange
    · exact ⟨hpos, hle, hstop⟩
    · exact ih hothers hrange

/-- There is one run for each owner. -/
theorem length_rangesFrom (h : rangesFrom table limit owner starts = .ok ranges) :
    ranges.length = starts.length := by
  induction starts generalizing owner ranges with
  | nil =>
    cases h
    rfl
  | cons first rest ih =>
    obtain ⟨-, -, -, others, hothers, rfl⟩ := rangesFrom_cons_eq_ok_iff.1 h
    rw [List.length_cons, List.length_cons, ih hothers]

/-- The rows of all runs are those from the first start to the end of the table, in order. -/
theorem flatMap_rows (h : rangesFrom table limit owner starts = .ok ranges) :
    ranges.flatMap RowRange.rows =
      List.range' (starts.headD limit) (limit - starts.headD limit) := by
  induction starts generalizing owner ranges with
  | nil =>
    cases h
    simp
  | cons first rest ih =>
    obtain ⟨-, hle, hstop, others, hothers, rfl⟩ := rangesFrom_cons_eq_ok_iff.1 h
    -- the rows from the first start on are those of the first run and those behind it
    have hsize : limit - first = (rest.headD limit - first) + (limit - rest.headD limit) := by
      omega
    have hfirst : rest.headD limit = first + (rest.headD limit - first) := by omega
    rw [List.flatMap_cons, ih hothers, List.headD_cons, hsize, ← List.range'_append_1, ← hfirst]
    rfl

/-- No row belongs to two runs. -/
theorem nodup_flatMap_rows (h : rangesFrom table limit owner starts = .ok ranges) :
    (ranges.flatMap RowRange.rows).Nodup := by
  rw [flatMap_rows h]
  exact List.nodup_range'

/-- The rows of a run are rows of the table. -/
theorem pos_of_mem_rows (h : rangesFrom table limit owner starts = .ok ranges)
    {range : RowRange} (hrange : range ∈ ranges) {row : Nat} (hrow : row ∈ range.rows) :
    0 < row ∧ row < limit := by
  have hmem : row ∈ ranges.flatMap RowRange.rows := List.mem_flatMap_of_mem hrange hrow
  -- the starts ascend from the first one, which is not 0
  have hpos : starts ≠ [] → 0 < starts.headD limit := by
    cases starts with
    | nil => simp
    | cons first rest => exact fun _ => (rangesFrom_cons_eq_ok_iff.1 h).1
  have hstarts : starts ≠ [] := by
    rintro rfl
    cases h
    cases hrange
  rw [flatMap_rows h, List.mem_range'_1] at hmem
  have hfirst := hpos hstarts
  omega

/-- What is known of the runs that a list column gives the rows of a table: there is one for each
row, no row of the other table belongs to two of them, and they lie in that table. -/
theorem listRanges_spec {image : Image} {column : Nat} {target : Table}
    (h : image.listRanges table column target = .ok ranges) :
    ranges.length = image.rows table ∧ (ranges.flatMap RowRange.rows).Nodup ∧
      ∀ range ∈ ranges, ∀ row ∈ range.rows, row ≠ 0 ∧ row ≤ image.rows target := by
  simp only [listRanges, columnValues, bind_eq_ok_iff] at h
  obtain ⟨starts, hstarts, hranges⟩ := h
  have hlength := congrArg List.length (mapM_eq_ok_iff.1 hstarts)
  rw [List.length_map, List.length_map, List.length_range'] at hlength
  refine ⟨by rw [length_rangesFrom hranges, hlength], nodup_flatMap_rows hranges,
    fun range hrange row hrow => ?_⟩
  have hbounds := pos_of_mem_rows hranges hrange hrow
  omega

end PublicAssembly.Image
