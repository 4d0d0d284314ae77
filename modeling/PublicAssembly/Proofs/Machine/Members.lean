import PublicAssembly.Image.Members
import PublicAssembly.Proofs.Image.Ranges
import PublicAssembly.Proofs.Machine.Metadata
import PublicAssembly.Proofs.Machine.Signature

/-!
# Member rows on a machine

The runs of a list column were looked at before anything is done with them: they lie in their table
and share no row. So a table of owners with a place for every method row has room for them
(`setOwners_spec`), and it says of a method which run holds it. An accessor that is looked up there
has a type with a run of methods, and stands in that run.
-/

namespace PublicAssembly.Machine

open Image (Fault RowRange OwnedRow SemanticsRow Accessors Membership)
open Metadata (Table CodedIndex)

/-! ### List columns -/

/-- The numbers in a column, row after row. -/
def columnValues (image : Image) (table : Table) (column : Nat) : Checked (List Nat) :=
  (List.range' 1 (image.rows table)).mapM fun row => cell image.metadata table row column

/-- The runs of the owners at some of the `starts`, each with its place. -/
def runsOf (table : Table) (limit : Nat) (starts : Array Nat) :
    List (Nat × Nat) → Checked (List RowRange)
  | [] => .ok []
  | (first, i) :: rest => do
    let next ← add 64 i 1
    let stop := starts.getD next limit
    if first = 0 ∨ stop < first ∨ limit < stop then
      let row ← add 64 i 1
      throw (.fault (.malformed (.badList table row first stop)))
    let ranges ← runsOf table limit starts rest
    return ⟨first, stop⟩ :: ranges

/-- The runs that a column of the table gives its rows in the other table. -/
def listRanges (image : Image) (table : Table) (column : Nat) (target : Table) :
    Checked (List RowRange) := do
  let limit ← add 32 (image.rows target) 1
  let starts ← columnValues image table column
  runsOf table limit starts.toArray starts.zipIdx

section Ranges

variable {image : Image}

theorem columnValues_eq (hfits : ImageFits image) (table : Table) (column : Nat) :
    columnValues image table column = lift (image.columnValues table column) :=
  mapM_eq_lift fun row _ => cell_eq hfits table row column

/-- The runs of the owners from a place on. -/
theorem runsOf_eq (table : Table) (limit : Nat) {starts rest : List Nat} {i : Nat}
    (hstarts : starts.length < 2 ^ 63) (hrest : starts.drop i = rest) :
    runsOf table limit starts.toArray (rest.zipIdx i) =
      lift (Image.rangesFrom table limit (i + 1) rest) := by
  induction rest generalizing i with
  | nil => rfl
  | cons first rest ih =>
    have hlt : i < starts.length := by
      by_contra hout
      rw [List.drop_eq_nil_of_le (Nat.le_of_not_lt hout)] at hrest
      cases hrest
    rw [List.drop_eq_getElem_cons hlt, List.cons.injEq] at hrest
    obtain ⟨-, hrest⟩ := hrest
    -- the next run begins where the rest does
    have hstop : starts.toArray.getD (i + 1) limit = rest.headD limit := by
      rw [Array.getD_eq_getD_getElem?, List.getElem?_toArray, ← hrest, List.headD_eq_head?_getD,
        List.head?_drop]
    rw [List.zipIdx_cons, runsOf, Image.rangesFrom, add_eq (by omega), Reading.ok_bind]
    dsimp only
    rw [hstop]
    refine ite_eq_lift (fun _ => rfl) fun _ => ?_
    rw [ih hrest]
    exact bind_eq_lift rfl fun ranges _ => rfl

theorem length_columnValues {table : Table} {column : Nat} {starts : List Nat}
    (h : image.columnValues table column = .ok starts) : starts.length = image.rows table := by
  have hlength := congrArg List.length (Reading.mapM_eq_ok_iff.1 h)
  rw [List.length_map, List.length_map, List.length_range'] at hlength
  exact hlength.symm

theorem listRanges_eq (hfits : ImageFits image) (table : Table) (column : Nat) (target : Table) :
    listRanges image table column target = lift (image.listRanges table column target) := by
  have htarget := rows_lt hfits target
  have htable := rows_lt hfits table
  rw [listRanges, Image.listRanges, add_eq (by omega), Reading.ok_bind, columnValues_eq hfits]
  refine bind_eq_lift rfl fun starts hstarts => ?_
  have hlength := length_columnValues hstarts
  exact runsOf_eq table _ (by omega) List.drop_zero

end Ranges

/-! ### The owners of methods -/

/-- Note the owner in place `i` for some rows. -/
def setOwner (i : Nat) : (rows : List Nat) → Array Nat → Checked (Array Nat)
  | [], owners => .ok owners
  | row :: rest, owners => do
    let owner ← add 32 (i % 2 ^ 32) 1
    let owners ← put owners row owner
    setOwner i rest owners

/-- Note the owners for the rows of their runs. -/
def setOwners : List (RowRange × Nat) → Array Nat → Checked (Array Nat)
  | [], owners => .ok owners
  | (range, i) :: rest, owners => do
    let owners ← setOwner i range.rows owners
    setOwners rest owners

/-- The owner of every method row, 0 for none. -/
def methodOwners (image : Image) (ranges : List RowRange) : Checked (Array Nat) := do
  let size ← add 64 (image.rows Table.methodDef) 1
  setOwners ranges.zipIdx (Array.replicate size 0)

section Owners

theorem setOwner_spec {i : Nat} (hi : i + 1 < 2 ^ 32) {rows : List Nat} {owners : Array Nat}
    (hrows : ∀ row ∈ rows, row < owners.size) :
    ∃ found, setOwner i rows owners = .ok found ∧ found.size = owners.size ∧
      ∀ row, found[row]? = if row ∈ rows then some (i + 1) else owners[row]? := by
  induction rows generalizing owners with
  | nil => exact ⟨owners, rfl, rfl, fun row => (if_neg List.not_mem_nil).symm⟩
  | cons first rest ih =>
    rw [List.forall_mem_cons] at hrows
    obtain ⟨found, hfound, hsize, hplaces⟩ := @ih (owners.setIfInBounds first (i + 1))
      (by simpa using hrows.2)
    refine ⟨found, ?_, by simpa using hsize, fun row => ?_⟩
    · rw [setOwner, Nat.mod_eq_of_lt (by omega), add_eq hi, Reading.ok_bind, put_eq hrows.1,
        Reading.ok_bind, hfound]
    · rw [hplaces]
      -- a row that comes again is set again, to the same owner
      by_cases hrest : row ∈ rest
      · rw [if_pos hrest, if_pos (List.mem_cons_of_mem _ hrest)]
      · by_cases hfirst : row = first
        · subst hfirst
          rw [if_neg hrest, if_pos List.mem_cons_self,
            Array.getElem?_setIfInBounds_self_of_lt hrows.1]
        · rw [if_neg hrest, if_neg (by simp [hfirst, hrest]),
            Array.getElem?_setIfInBounds_ne (Ne.symm hfirst)]

/-- A row of one of the runs has the place of the run as its owner, and the other rows have the
owner they had. -/
theorem setOwners_spec {ranges : List RowRange} {i : Nat} (hi : i + ranges.length < 2 ^ 32)
    {owners : Array Nat} (hrows : ∀ range ∈ ranges, ∀ row ∈ range.rows, row < owners.size)
    (hnodup : (ranges.flatMap RowRange.rows).Nodup) :
    ∃ found, setOwners (ranges.zipIdx i) owners = .ok found ∧ ∀ row owner,
      found[row]? = some owner ↔
        (∃ j range, ranges[j]? = some range ∧ row ∈ range.rows ∧ owner = i + j + 1) ∨
          row ∉ ranges.flatMap RowRange.rows ∧ owners[row]? = some owner := by
  induction ranges generalizing i owners with
  | nil => exact ⟨owners, rfl, fun row owner => by simp⟩
  | cons range rest ih =>
    rw [List.forall_mem_cons] at hrows
    rw [List.length_cons] at hi
    rw [List.flatMap_cons, List.nodup_append'] at hnodup
    obtain ⟨-, hrest, hdisjoint⟩ := hnodup
    obtain ⟨between, hbetween, hsize, hplaces⟩ := setOwner_spec (i := i) (by omega) hrows.1
    obtain ⟨found, hfound, howners⟩ :=
      ih (i := i + 1) (by omega) (by rw [hsize]; exact hrows.2) hrest
    refine ⟨found, ?_, fun row owner => ?_⟩
    · rw [List.zipIdx_cons, setOwners, hbetween, Reading.ok_bind, hfound]
    · rw [howners, hplaces, List.flatMap_cons, List.mem_append]
      constructor
      · rintro (⟨j, other, hother, hrow, rfl⟩ | ⟨hout, howner⟩)
        · exact .inl ⟨j + 1, other, hother, hrow, by omega⟩
        · by_cases hrow : row ∈ range.rows
          · rw [if_pos hrow, Option.some.injEq] at howner
            exact .inl ⟨0, range, rfl, hrow, howner.symm⟩
          · rw [if_neg hrow] at howner
            exact .inr ⟨not_or.2 ⟨hrow, hout⟩, howner⟩
      · rintro (⟨_ | j, other, hother, hrow, rfl⟩ | ⟨hout, howner⟩)
        · -- the first run, whose rows are in no other
          cases hother
          exact .inr ⟨hdisjoint hrow, if_pos hrow⟩
        · exact .inl ⟨j, other, hother, hrow, by omega⟩
        · rw [not_or] at hout
          exact .inr ⟨hout.2, by rw [if_neg hout.1, howner]⟩

/-- The table of owners says of a method which run holds it. -/
theorem methodOwners_spec {image : Image} (hfits : ImageFits image) {ranges : List RowRange}
    (h : image.listRanges Table.typeDef 5 Table.methodDef = .ok ranges) :
    ∃ owners, methodOwners image ranges = .ok owners ∧ ∀ row owner, owner ≠ 0 →
      (owners[row]? = some owner ↔
        ∃ range, ranges[owner - 1]? = some range ∧ range.Holds row) := by
  obtain ⟨hlength, hnodup, hin⟩ := Image.listRanges_spec h
  have hmethods := rows_lt hfits Table.methodDef
  have htypes := rows_lt hfits Table.typeDef
  -- every row of a run has a place in the table, and no row is in two runs
  have hroom : ∀ range ∈ ranges, ∀ row ∈ range.rows,
      row < (Array.replicate (image.rows Table.methodDef + 1) 0).size := by
    intro range hrange row hrow
    rw [Array.size_replicate]
    exact Nat.lt_succ_of_le (hin range hrange row hrow).2
  obtain ⟨owners, howners, hplaces⟩ := setOwners_spec (i := 0) (by omega) hroom hnodup
  refine ⟨owners, ?_, fun row owner howner => ?_⟩
  · rw [methodOwners, add_eq (by omega), Reading.ok_bind, howners]
  · rw [hplaces]
    constructor
    · rintro (⟨j, range, hrange, hrow, rfl⟩ | ⟨-, hzero⟩)
      · exact ⟨range, by simpa using hrange, RowRange.mem_rows.1 hrow⟩
      · rw [Array.getElem?_replicate] at hzero
        split at hzero
        · cases hzero
          exact absurd rfl howner
        · cases hzero
    · rintro ⟨range, hrange, hrow⟩
      exact .inl ⟨owner - 1, range, hrange, RowRange.mem_rows.2 hrow, by omega⟩

end Owners

/-! ### Events and properties -/

/-- The members in the given rows of a table, whose names stand in column 1. -/
def ownedRows (image : Image) (owner : Nat) (table : Table) (rows : List Nat) :
    Checked (List OwnedRow) :=
  rows.mapM fun row => do
    let name ← cellString image.metadata table row 1
    return ⟨owner, row, name⟩

/-- The members that map rows with the given owners and runs assign. -/
def assignRows (image : Image) (mapTable table : Table) :
    (owners : List Nat) → (ranges : List RowRange) → Checked (List OwnedRow)
  | owner :: owners, range :: ranges => do
    let types := image.rows Table.typeDef
    if owner = 0 ∨ types < owner then
      throw (.fault (.malformed (.badParent mapTable owner types)))
    let here ← ownedRows image owner table range.rows
    let rest ← assignRows image mapTable table owners ranges
    return here ++ rest
  | _, _ => .ok []

/-- The members of a table with their types, as the map table assigns them. -/
def assignedRows (image : Image) (mapTable table : Table) : Checked (List OwnedRow) := do
  let owners ← columnValues image mapTable 0
  let ranges ← listRanges image mapTable 1 table
  assignRows image mapTable table owners ranges

section Assigned

variable {image : Image}

theorem assignRows_eq (hfits : ImageFits image) (mapTable table : Table) (owners : List Nat)
    (ranges : List RowRange) :
    assignRows image mapTable table owners ranges =
      lift (image.assignRows mapTable table owners ranges) := by
  induction owners generalizing ranges with
  | nil => rfl
  | cons owner owners ih =>
    cases ranges with
    | nil => rfl
    | cons range ranges =>
      have hhere : ownedRows image owner table range.rows =
          lift (image.ownedRows owner table range.rows) := by
        refine mapM_eq_lift fun row _ => ?_
        rw [cellString_eq hfits]
        exact bind_eq_lift rfl fun name _ => rfl
      rw [assignRows, Image.assignRows]
      refine ite_eq_lift (fun _ => rfl) fun _ => ?_
      dsimp only
      rw [hhere]
      refine bind_eq_lift rfl fun here _ => ?_
      rw [ih]
      exact bind_eq_lift rfl fun rest _ => rfl

theorem assignedRows_eq (hfits : ImageFits image) (mapTable table : Table) :
    assignedRows image mapTable table = lift (image.assignedRows mapTable table) := by
  rw [assignedRows, Image.assignedRows, columnValues_eq hfits]
  refine bind_eq_lift rfl fun owners _ => ?_
  rw [listRanges_eq hfits]
  exact bind_eq_lift rfl fun ranges _ => assignRows_eq hfits mapTable table owners ranges

end Assigned

/-! ### Accessors -/

/-- The row that associates a method with an event or a property. -/
def semanticsRow (image : Image) (row : Nat) : Checked SemanticsRow := do
  let semantics ← cell image.metadata Table.methodSemantics row 0
  let method ← cell image.metadata Table.methodSemantics row 1
  let association ← cell image.metadata Table.methodSemantics row 2
  match ← decodeIndex .hasSemantics association with
  | some (table, row) =>
    return ⟨semantics, method, if table = Table.property then some row else none⟩
  | none => return ⟨semantics, method, none⟩

/-- The run of methods of the type that an accessor belongs to. -/
def runOfOwner (methods : Array RowRange) (owner method : Nat) : Checked RowRange :=
  if owner = 0 then .error (.lapse (.accessorWithoutType method))
  else
    match methods[owner - 1]? with
    | some range => .ok range
    | none => .error (.lapse (.accessorWithoutType method))

/-- The place of a method in the run that it belongs to. -/
def placeIn (range : RowRange) (method : Nat) : Checked Nat :=
  if range.first ≤ method then .ok (method - range.first)
  else .error (.lapse (.accessorBeforeType method))

/-- Take in one row, after the owners of the methods were noted. -/
def takeAccessor (members : Membership) (owners : Array Nat) (found : Array Accessors)
    (row : SemanticsRow) : Checked (Array Accessors) :=
  match members.owned? row with
  | none => .ok found
  | some (property, owner) =>
    -- the table of owners tells without a search whether the run holds the method
    if owners[row.method]? ≠ some owner then .ok found
    else do
      let range ← runOfOwner members.methods owner row.method
      let place ← placeIn range row.method
      if row.isGetter then
        return found.modify property fun a => { a with getter := some place }
      else if row.isSetter then
        return found.modify property fun a => { a with setter := some place }
      else
        return found

/-- Take in the associations of some rows, row after row. -/
def readAccessors (image : Image) (members : Membership) (owners : Array Nat) :
    (rows : List Nat) → Array Accessors → Checked (Array Accessors)
  | [], found => .ok found
  | row :: rest, found => do
    let semantics ← semanticsRow image row
    let found ← takeAccessor members owners found semantics
    readAccessors image members owners rest found

section Accessors

variable {image : Image} {members : Membership} {owners : Array Nat}

/-- The row that associates a method with an event or a property. -/
def semanticsAt (image : Image) (row : Nat) : Except Fault SemanticsRow := do
  let semantics ← image.cell Table.methodSemantics row 0
  let method ← image.cell Table.methodSemantics row 1
  let association ← image.cell Table.methodSemantics row 2
  return ⟨semantics, method, SemanticsRow.propertyOf association⟩

theorem semanticsRow_eq (hfits : ImageFits image) (row : Nat) :
    semanticsRow image row = lift (semanticsAt image row) := by
  rw [semanticsRow, semanticsAt, cell_eq hfits, cell_eq hfits, cell_eq hfits]
  refine bind_eq_lift rfl fun semantics _ => bind_eq_lift rfl fun method _ =>
    bind_eq_lift rfl fun association _ => ?_
  rw [decodeIndex_eq, Reading.ok_bind, SemanticsRow.propertyOf]
  rcases CodedIndex.hasSemantics.decode association with _ | ⟨table, row⟩
  · rfl
  · rfl

theorem owner_ne_zero {row : SemanticsRow} {property owner : Nat}
    (h : members.owned? row = some (property, owner)) : owner ≠ 0 := by
  rw [Membership.owned?] at h
  split at h
  · cases h
  · dsimp only at h
    split at h
    · cases h
    · next hne =>
      cases h
      exact hne

theorem takeAccessor_eq
    (howners : ∀ row owner, owner ≠ 0 → (owners[row]? = some owner ↔
      ∃ range, members.methods[owner - 1]? = some range ∧ range.Holds row))
    (found : Array Accessors) (row : SemanticsRow) :
    takeAccessor members owners found row = .ok (members.addAccessor found row) := by
  rw [takeAccessor, Membership.addAccessor]
  rcases howned : members.owned? row with _ | ⟨property, owner⟩
  · rfl
  have hne := owner_ne_zero howned
  dsimp only
  rw [Membership.methodRange, if_neg hne, Array.getD_eq_getD_getElem?, RowRange.place?]
  by_cases hown : owners[row.method]? = some owner
  · obtain ⟨range, hrange, hholds⟩ := (howners _ _ hne).1 hown
    rw [if_neg (not_not.2 hown), runOfOwner, if_neg hne, hrange, Reading.ok_bind, placeIn,
      if_pos hholds.1, Reading.ok_bind, Option.getD_some, if_pos hholds]
    dsimp only
    by_cases hgetter : row.isGetter = true
    · rw [if_pos hgetter, if_pos hgetter]
      rfl
    · rw [if_neg hgetter, if_neg hgetter]
      by_cases hsetter : row.isSetter = true
      · rw [if_pos hsetter, if_pos hsetter]
        rfl
      · rw [if_neg hsetter, if_neg hsetter]
        rfl
  · -- a method of no run or of another one has no place in the run
    have hout : ¬ (members.methods[owner - 1]?.getD .empty).Holds row.method := by
      intro hholds
      refine hown ((howners _ _ hne).2 ?_)
      rcases hrange : members.methods[owner - 1]? with _ | range
      · rw [hrange] at hholds
        exact absurd hholds.2 (Nat.not_lt_zero _)
      · rw [hrange] at hholds
        exact ⟨range, rfl, hholds⟩
    rw [if_pos hown, if_neg hout]

theorem readAccessors_eq (hfits : ImageFits image) (rows : List Nat) (found : Array Accessors)
    (howners : ∀ row owner, owner ≠ 0 → (owners[row]? = some owner ↔
      ∃ range, members.methods[owner - 1]? = some range ∧ range.Holds row)) :
    readAccessors image members owners rows found =
      lift (rows.mapM (semanticsAt image) >>= fun semantics =>
        .ok (semantics.foldl members.addAccessor found)) := by
  induction rows generalizing found with
  | nil => rfl
  | cons row rest ih =>
    rw [readAccessors, List.mapM_cons, bind_assoc, semanticsRow_eq hfits]
    refine bind_eq_lift rfl fun semantics _ => ?_
    rw [takeAccessor_eq howners, Reading.ok_bind, ih, bind_assoc]
    rcases rest.mapM (semanticsAt image) with _ | others
    · rfl
    · rfl

end Accessors

end PublicAssembly.Machine
