import Mathlib.Algebra.GroupWithZero.Nat
import PublicAssembly.Metadata.CodedIndex

/-!
# Coded indexes fit into their columns

A stored index holds the row above the bits that say which table is meant. No tag needs more than
its bits, so the table and the row are read off the number again, and a column is as narrow as the
last rows of its tables allow.

## Main statements

* `encode_lt_two_pow_iff`: the bits that are left to the row decide whether an index fits;
* `decode_eq_some_iff`: decoding gives a row for the numbers that store one, and no others;
* `width_eq_two_iff`: two bytes are taken when the last row of every table fits into them;
* `decode_stored`: every row that can be stored fits into the column and is read back.
-/

namespace PublicAssembly.Metadata.CodedIndex

variable {kind : CodedIndex} {tag : Nat}

/-! ### Tags -/

/-- No kind of index needs more than five bits for its tags. -/
theorem tagBits_le (kind : CodedIndex) : kind.tagBits ≤ 5 := by
  cases kind <;> decide

/-- A listed tag fits into the bits for tags. -/
theorem tag_lt {listed : Option Table} (h : kind.tables[tag]? = some listed) :
    tag < 2 ^ kind.tagBits := by
  have hlength := kind.length_tables_le
  rw [Nat.one_shiftLeft] at hlength
  exact Nat.lt_of_lt_of_le (List.getElem?_eq_some_iff.1 h).1 hlength

/-- The row and the tag of an index share no bit. -/
theorem encode_eq_or (htag : tag < 2 ^ kind.tagBits) (row : Nat) :
    kind.encode tag row = row <<< kind.tagBits ||| tag :=
  Nat.shiftLeft_add_eq_or_of_lt htag row

/-- An index fits into a number of bits if its row fits into those that the tag leaves. -/
theorem encode_lt_two_pow_iff (htag : tag < 2 ^ kind.tagBits) {bits : Nat}
    (hbits : kind.tagBits ≤ bits) (row : Nat) :
    kind.encode tag row < 2 ^ bits ↔ row < 2 ^ (bits - kind.tagBits) := by
  -- the bits above the tag are those that are left for the row
  have hsplit : 2 ^ bits = 2 ^ (bits - kind.tagBits) * 2 ^ kind.tagBits := by
    rw [← Nat.pow_add, Nat.sub_add_cancel hbits]
  rw [encode, Nat.shiftLeft_eq, hsplit]
  constructor
  · intro hlt
    exact Nat.lt_of_mul_lt_mul_right (Nat.lt_of_le_of_lt (Nat.le_add_right _ tag) hlt)
  · intro hlt
    calc row * 2 ^ kind.tagBits + tag
      _ < row * 2 ^ kind.tagBits + 2 ^ kind.tagBits := Nat.add_lt_add_left htag _
      _ = (row + 1) * 2 ^ kind.tagBits := (Nat.succ_mul row _).symm
      _ ≤ 2 ^ (bits - kind.tagBits) * 2 ^ kind.tagBits := Nat.mul_le_mul_right _ hlt

/-! ### Decoding -/

/-- The tag of a number is listed with a table, or the number names no row. -/
theorem decode_eq_none_iff (kind : CodedIndex) (value : Nat) :
    kind.decode value = none ↔
      kind.tables.length ≤ value % 2 ^ kind.tagBits ∨
        kind.tables[value % 2 ^ kind.tagBits]? = some none := by
  rw [decode, Nat.one_shiftLeft]
  rcases htable : kind.tables[value % 2 ^ kind.tagBits]? with _ | _ | table
  · simpa using List.getElem?_eq_none_iff.1 htable
  · simp
  · have hlisted := (List.getElem?_eq_some_iff.1 htable).1
    simp [hlisted]

/-- A number names a row if it is what stores the row under a tag of its table. -/
theorem decode_eq_some_iff {value row : Nat} {table : Table} :
    kind.decode value = some (table, row) ↔
      ∃ tag, kind.tables[tag]? = some (some table) ∧ kind.encode tag row = value := by
  constructor
  · intro h
    rw [decode, Nat.one_shiftLeft] at h
    split at h
    · next htable =>
      cases h
      refine ⟨_, htable, ?_⟩
      -- the row is the quotient and the tag is the remainder
      rw [encode, Nat.shiftLeft_eq, Nat.shiftRight_eq_div_pow]
      exact Nat.div_add_mod' value _
    · cases h
  · rintro ⟨tag, htable, rfl⟩
    exact decode_encode htable

/-! ### The width of a column -/

/-- The greatest of some numbers is below a bound if each of them is. -/
theorem foldl_max_lt_iff {α : Type} (size : α → Nat) (items : List α) (most bound : Nat) :
    items.foldl (fun most item => max most (size item)) most < bound ↔
      most < bound ∧ ∀ item ∈ items, size item < bound := by
  induction items generalizing most with
  | nil => simp
  | cons item rest ih =>
    rw [List.foldl_cons, ih, Nat.max_lt, List.forall_mem_cons, and_assoc]

/-- The greatest row count is below a bound if that of each listed table is. -/
theorem largest_lt_iff {counts : RowCounts} {bound : Nat} (hbound : 0 < bound) :
    kind.largest counts < bound ↔
      ∀ (tag : Nat) (table : Table), kind.tables[tag]? = some (some table) →
        counts.rows table < bound := by
  rw [largest, foldl_max_lt_iff]
  constructor
  · rintro ⟨-, hall⟩ tag table htable
    refine hall table (List.mem_filterMap.2 ⟨some table, ?_, rfl⟩)
    exact List.mem_of_getElem? htable
  · intro hall
    refine ⟨hbound, fun table hmem => ?_⟩
    obtain ⟨_, hlisted, rfl⟩ := List.mem_filterMap.1 hmem
    obtain ⟨tag, htable⟩ := List.mem_iff_getElem?.1 hlisted
    exact hall tag table htable

/-- A column takes two bytes if the last row of each listed table fits into them. -/
theorem width_eq_two_iff {counts : RowCounts} :
    kind.width counts = 2 ↔
      ∀ tag table, kind.tables[tag]? = some (some table) →
        kind.encode tag (counts.rows table) < 2 ^ 16 := by
  have hbits : kind.tagBits ≤ 16 := Nat.le_trans kind.tagBits_le (by decide)
  have hwidth : kind.width counts = 2 ↔ kind.largest counts < 2 ^ (16 - kind.tagBits) := by
    rw [width, Nat.one_shiftLeft]
    split <;> simp [*]
  rw [hwidth, largest_lt_iff (Nat.two_pow_pos _)]
  refine forall_congr' fun tag => forall_congr' fun table => forall_congr' fun htable => ?_
  rw [encode_lt_two_pow_iff (tag_lt htable) hbits]

/-- A column that does not take two bytes takes four. -/
theorem width_eq_four {counts : RowCounts} (h : kind.width counts ≠ 2) :
    kind.width counts = 4 := by
  rw [width] at h ⊢
  split <;> simp_all

/-- Every row of a listed table that four bytes have room for fits into the column. -/
theorem encode_lt_width {counts : RowCounts} {table : Table} {row : Nat}
    (htable : kind.tables[tag]? = some (some table)) (hrows : row ≤ counts.rows table)
    (hrow : row < 2 ^ (32 - kind.tagBits)) :
    kind.encode tag row < 2 ^ (8 * kind.width counts) := by
  have htag := tag_lt htable
  have hbits (n : Nat) (hn : 5 ≤ n) : kind.tagBits ≤ n := Nat.le_trans kind.tagBits_le hn
  by_cases hwidth : kind.width counts = 2
  · -- a row before the last one of its table is below it, and the last one fits
    have hlast := width_eq_two_iff.1 hwidth tag table htable
    rw [encode_lt_two_pow_iff htag (hbits 16 (by decide))] at hlast
    rw [hwidth, encode_lt_two_pow_iff htag (hbits (8 * 2) (by decide))]
    exact Nat.lt_of_le_of_lt hrows hlast
  · rw [width_eq_four hwidth, encode_lt_two_pow_iff htag (hbits (8 * 4) (by decide))]
    exact hrow

/-- The rows of the listed tables are stored as the row above the bits of the tag; each that four
bytes have room for fits into the column, and the table and the row are read back. Nothing else is
read as a row: a number names one if it is what stores the row, and it names none if its tag is
unused or not listed. The column takes two bytes if the last row of every listed table fits into
them, and four otherwise. -/
theorem decode_stored (kind : CodedIndex) (counts : RowCounts) :
    (∀ tag table row, kind.tables[tag]? = some (some table) → 1 ≤ row →
        row ≤ counts.rows table → row < 2 ^ (32 - kind.tagBits) →
        row <<< kind.tagBits ||| tag < 2 ^ (8 * kind.width counts) ∧
          kind.decode (row <<< kind.tagBits ||| tag) = some (table, row)) ∧
      (∀ value table row, kind.decode value = some (table, row) ↔
        ∃ tag, kind.tables[tag]? = some (some table) ∧ row <<< kind.tagBits ||| tag = value) ∧
      (∀ value, kind.decode value = none ↔
        kind.tables.length ≤ value % 2 ^ kind.tagBits ∨
          kind.tables[value % 2 ^ kind.tagBits]? = some none) ∧
      (kind.width counts = 2 ↔
        ∀ tag table, kind.tables[tag]? = some (some table) →
          counts.rows table <<< kind.tagBits ||| tag < 2 ^ 16) ∧
      (kind.width counts = 2 ∨ kind.width counts = 4) := by
  have hor {tag : Nat} {listed : Option Table} (h : kind.tables[tag]? = some listed) (row : Nat) :
      kind.encode tag row = row <<< kind.tagBits ||| tag := encode_eq_or (tag_lt h) row
  refine ⟨?_, ?_, decode_eq_none_iff kind, ?_, ?_⟩
  · intro tag table row htable _ hrows hrow
    rw [← hor htable]
    exact ⟨encode_lt_width htable hrows hrow, decode_encode htable⟩
  · intro value table row
    rw [decode_eq_some_iff]
    refine exists_congr fun tag => and_congr_right fun htable => ?_
    rw [hor htable]
  · rw [width_eq_two_iff]
    refine forall_congr' fun tag => forall_congr' fun table => forall_congr' fun htable => ?_
    rw [hor htable]
  · exact or_iff_not_imp_left.2 width_eq_four

/-- Row counts with one type reference more than two bytes leave room for. -/
def manyReferences : RowCounts :=
  [1, 0x4000, 3]

/-- The last type reference takes four bytes and is read back. -/
theorem decode_stored_manyReferences :
    typeDefOrRef.tables[1]? = some (some Table.typeRef) ∧
      0x4000 ≤ manyReferences.rows Table.typeRef ∧
      0x4000 <<< typeDefOrRef.tagBits ||| 1 < 2 ^ (8 * typeDefOrRef.width manyReferences) ∧
      typeDefOrRef.decode (0x4000 <<< typeDefOrRef.tagBits ||| 1) =
        some (Table.typeRef, 0x4000) ∧
      typeDefOrRef.width manyReferences ≠ 2 := by
  have htable : typeDefOrRef.tables[1]? = some (some Table.typeRef) := rfl
  have hrows : 0x4000 ≤ manyReferences.rows Table.typeRef := by decide
  obtain ⟨hstored, -, -, hwidth, -⟩ := decode_stored typeDefOrRef manyReferences
  obtain ⟨hfits, hdecode⟩ := hstored 1 Table.typeRef 0x4000 htable (by decide) hrows (by decide)
  refine ⟨htable, hrows, hfits, hdecode, fun htwo => ?_⟩
  -- in two bytes there is no room for the last type reference
  have hlt := hwidth.1 htwo 1 Table.typeRef htable
  revert hlt
  decide

end PublicAssembly.Metadata.CodedIndex
