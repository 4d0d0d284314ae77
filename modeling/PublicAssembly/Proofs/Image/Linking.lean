import PublicAssembly.Image.Nesting
import PublicAssembly.Proofs.Image.Cells

/-!
# From nesting rows to enclosing types

The nesting rows are taken in one after another. A row is refused if it names a type row that is not
there, or a nested type that was named before; nothing else is refused. What was taken in says
exactly what the rows say, in whatever order they stand.

## Main definitions

* `Image.Links`, `Image.NamesEnclosing`: what one nesting row says, and what some row says;
* `Image.NamesNested`: some nesting row names a type row as nested;
* `Enclosing.NestedIn`: what the enclosing types say.

## Main statements

* `exists_enclosing_iff`: which nesting rows can be taken in;
* `nestedIn_iff`: the enclosing type of a row is the one that a nesting row names;
* `enclosing_spec`: what is known of the enclosing types of an image.
-/

namespace PublicAssembly.Image

open Metadata (Table)
open Reading

/-- There is a type row of the number. -/
def HasTypeRow (image : Image) (row : Nat) : Prop :=
  row ≠ 0 ∧ row ≤ image.rows Table.typeDef

/-- The nesting row says that the one type row is nested in the other. -/
def Links (image : Image) (n inner outer : Nat) : Prop :=
  image.cell Table.nestedClass n 0 = .ok inner ∧ image.cell Table.nestedClass n 1 = .ok outer

/-- Some nesting row says that the one type row is nested in the other. -/
def NamesEnclosing (image : Image) (inner outer : Nat) : Prop :=
  ∃ n, image.Links n inner outer

/-- Some nesting row names the type row as nested. -/
def NamesNested (image : Image) (row : Nat) : Prop :=
  ∃ n, image.cell Table.nestedClass n 0 = .ok row

namespace Enclosing

/-- The one row is nested in the other. -/
def NestedIn (enclosing : Enclosing) (inner outer : Nat) : Prop :=
  enclosing.getD inner none = some outer

/-- Only type rows are nested, and only in type rows. -/
def LinksRows (enclosing : Enclosing) : Prop :=
  ∀ inner outer, enclosing.NestedIn inner outer →
    inner ∈ enclosing.typeRows ∧ outer ∈ enclosing.typeRows

end Enclosing

/-! ### Taking in nesting rows -/

section Reading

variable {image : Image} {count row : Nat} {found enclosing : Enclosing}

/-- A nesting row says one thing. -/
theorem Links.unique {n inner outer inner' outer' : Nat} (h : image.Links n inner outer)
    (h' : image.Links n inner' outer') : inner = inner' ∧ outer = outer' :=
  ⟨Except.ok.inj (h.1.symm.trans h'.1), Except.ok.inj (h.2.symm.trans h'.2)⟩

/-- What it takes to take in some nesting rows. -/
theorem readEnclosing_succ_eq_ok_iff :
    readEnclosing image (count + 1) row found = .ok enclosing ↔
      ∃ inner outer, image.Links row inner outer ∧
        (image.HasTypeRow inner ∧ image.HasTypeRow outer) ∧ found.getD inner none = none ∧
        readEnclosing image count (row + 1) (found.setIfInBounds inner (some outer)) =
          .ok enclosing := by
  rw [readEnclosing]
  simp only [bind_eq_ok_iff, throw_eq, error_bind, ite_error_eq_ok_iff, not_or, Nat.not_lt,
    Bool.not_eq_true, Option.isSome_eq_false_iff, Option.isNone_iff_eq_none, exists_and_left,
    Links, HasTypeRow, and_assoc, ne_eq]

/-- Taking in nesting rows keeps the number of places. -/
theorem size_readEnclosing (h : readEnclosing image count row found = .ok enclosing) :
    enclosing.size = found.size := by
  induction count generalizing row found with
  | zero =>
    cases h
    rfl
  | succ count ih =>
    obtain ⟨inner, outer, -, -, -, hrest⟩ := readEnclosing_succ_eq_ok_iff.1 h
    rw [ih hrest, Array.size_setIfInBounds]

/-- The enclosing types after one more was found. -/
theorem getD_setIfInBounds (found : Enclosing) {nested : Nat} (h : nested < found.size)
    (outer inner : Nat) :
    (found.setIfInBounds nested (some outer)).getD inner none =
      if nested = inner then some outer else found.getD inner none := by
  rw [Array.getD_eq_getD_getElem?, Array.getD_eq_getD_getElem?, Array.getElem?_setIfInBounds,
    if_pos h]
  split <;> rfl

/-- A row has an enclosing type afterwards if it had it or a nesting row says so. -/
theorem getD_readEnclosing_iff (hroom : image.rows Table.typeDef < found.size)
    (h : readEnclosing image count row found = .ok enclosing) (inner outer : Nat) :
    enclosing.getD inner none = some outer ↔ found.getD inner none = some outer ∨
      ∃ n, row ≤ n ∧ n < row + count ∧ image.Links n inner outer := by
  induction count generalizing row found with
  | zero =>
    cases h
    refine ⟨.inl, fun hcase => hcase.elim id ?_⟩
    rintro ⟨n, hle, hlt, -⟩
    omega
  | succ count ih =>
    obtain ⟨nested, other, hlinks, hrows, hnew, hrest⟩ := readEnclosing_succ_eq_ok_iff.1 h
    have hnested : nested < found.size := Nat.lt_of_le_of_lt hrows.1.2 hroom
    rw [ih (by simpa using hroom) hrest, getD_setIfInBounds _ hnested]
    -- the rows are the first one, which fills a free place, and those behind it
    constructor
    · rintro (hsome | ⟨n, hle, hlt, hn⟩)
      · split at hsome
        · next heq =>
          cases hsome
          exact .inr ⟨row, Nat.le_refl _, by omega, heq ▸ hlinks⟩
        · exact .inl hsome
      · exact .inr ⟨n, by omega, by omega, hn⟩
    · rintro (hsome | ⟨n, hle, hlt, hn⟩)
      · -- what was found before is not the place that the first row fills
        left
        rwa [if_neg]
        rintro rfl
        rw [hnew] at hsome
        cases hsome
      · rcases Nat.eq_or_lt_of_le hle with rfl | hlater
        · obtain ⟨rfl, rfl⟩ := hlinks.unique hn
          exact .inl (if_pos rfl)
        · exact .inr ⟨n, hlater, by omega, hn⟩

/-- Nesting rows can be taken in if they link type rows, and none names a nested type that was found
before or that another row names. -/
theorem exists_readEnclosing_iff (hroom : image.rows Table.typeDef < found.size) :
    (∃ enclosing, readEnclosing image count row found = .ok enclosing) ↔
      (∀ n, row ≤ n → n < row + count → ∃ inner outer, image.Links n inner outer ∧
        (image.HasTypeRow inner ∧ image.HasTypeRow outer) ∧ found.getD inner none = none) ∧
      ∀ n n', row ≤ n → n < n' → n' < row + count → ∀ inner outer outer',
        image.Links n inner outer → ¬ image.Links n' inner outer' := by
  induction count generalizing row found with
  | zero =>
    refine ⟨fun _ => ⟨fun n _ _ => by omega, fun n n' _ _ _ => by omega⟩, fun _ => ⟨found, rfl⟩⟩
  | succ count ih =>
    simp only [readEnclosing_succ_eq_ok_iff]
    -- the rows behind the first one find the place filled that the first one names
    constructor
    · rintro ⟨enclosing, nested, other, hlinks, hrows, hnew, hrest⟩
      have hnested : nested < found.size := Nat.lt_of_le_of_lt hrows.1.2 hroom
      obtain ⟨hlater, honce⟩ := (ih (by simpa using hroom)).1 ⟨enclosing, hrest⟩
      simp only [getD_setIfInBounds _ hnested] at hlater
      refine ⟨fun n hle hlt => ?_, fun n n' hle hlt hlt' inner outer outer' hn hn' => ?_⟩
      · rcases Nat.eq_or_lt_of_le hle with rfl | hle
        · exact ⟨nested, other, hlinks, hrows, hnew⟩
        · obtain ⟨inner, outer, hn, hbounds, hfree⟩ := hlater n hle (by omega)
          split at hfree
          · cases hfree
          · exact ⟨inner, outer, hn, hbounds, hfree⟩
      · rcases Nat.eq_or_lt_of_le hle with rfl | hle
        · -- the later row was taken in when the first one was found already
          obtain ⟨rfl, rfl⟩ := hlinks.unique hn
          obtain ⟨inner', other', hn'', -, hfree⟩ := hlater n' hlt (by omega)
          obtain ⟨rfl, -⟩ := hn'.unique hn''
          rw [if_pos rfl] at hfree
          cases hfree
        · exact honce n n' hle hlt (by omega) inner outer outer' hn hn'
    · rintro ⟨hall, honce⟩
      obtain ⟨nested, other, hlinks, hrows, hnew⟩ := hall row (Nat.le_refl _) (by omega)
      have hnested : nested < found.size := Nat.lt_of_le_of_lt hrows.1.2 hroom
      have hlater : ∃ enclosing, readEnclosing image count (row + 1)
          (found.setIfInBounds nested (some other)) = .ok enclosing := by
        refine (ih (by simpa using hroom)).2 ⟨fun n hle hlt => ?_, fun n n' hle hlt hlt' => ?_⟩
        · obtain ⟨inner, outer, hn, hbounds, hfree⟩ := hall n (by omega) (by omega)
          refine ⟨inner, outer, hn, hbounds, ?_⟩
          rwa [getD_setIfInBounds _ hnested, if_neg]
          -- otherwise both rows would name the same nested type
          rintro rfl
          exact honce row n (Nat.le_refl _) hle (by omega) _ _ _ hlinks hn
        · exact honce n n' (by omega) hlt (by omega)
      obtain ⟨enclosing, hrest⟩ := hlater
      exact ⟨enclosing, nested, other, hlinks, hrows, hnew, hrest⟩

end Reading

/-! ### The enclosing types of an image -/

/-- No enclosing type is found before the nesting rows are taken in. -/
theorem getD_replicate_none (count row : Nat) :
    (Array.replicate count (none : Option Nat)).getD row none = none := by
  rw [Array.getD_eq_getD_getElem?, Array.getElem?_replicate]
  split <;> rfl

/-- A nesting row is one of the table. -/
theorem Links.row_le {image : Image} {n inner outer : Nat} (h : image.Links n inner outer) :
    n ≠ 0 ∧ n ≤ image.rows Table.nestedClass :=
  row_of_cell h.1

/-- The enclosing type of a row is the one that some nesting row names. -/
theorem nestedIn_iff {image : Image} {enclosing : Enclosing}
    (h : image.enclosing = .ok enclosing) (inner outer : Nat) :
    enclosing.NestedIn inner outer ↔ image.NamesEnclosing inner outer := by
  rw [Enclosing.NestedIn, getD_readEnclosing_iff (by simp) h, getD_replicate_none]
  constructor
  · rintro (hsome | ⟨n, -, -, hn⟩)
    · cases hsome
    · exact ⟨n, hn⟩
  · rintro ⟨n, hn⟩
    have hrow := hn.row_le
    exact .inr ⟨n, by omega, by omega, hn⟩

/-- The nesting rows of an image can be taken in if they link type rows, and no two of them name the
same nested type. -/
theorem exists_enclosing_iff {data : Bytes} {image : Image} (hread : Image.read data = .ok image) :
    (∃ enclosing, image.enclosing = .ok enclosing) ↔
      (∀ n inner outer, image.Links n inner outer →
        image.HasTypeRow inner ∧ image.HasTypeRow outer) ∧
      ∀ n n' inner outer outer', image.Links n inner outer → image.Links n' inner outer' →
        n = n' := by
  simp only [enclosing]
  rw [exists_readEnclosing_iff (by simp)]
  constructor
  · rintro ⟨hall, honce⟩
    constructor
    · intro n inner outer hn
      have hrow := hn.row_le
      obtain ⟨inner', outer', hlinks, hbounds, -⟩ := hall n (by omega) (by omega)
      obtain ⟨rfl, rfl⟩ := hn.unique hlinks
      exact hbounds
    · -- of two rows the later one would have been refused
      intro n n' inner outer outer' hn hn'
      have hrow := hn.row_le
      have hrow' := hn'.row_le
      rcases Nat.lt_trichotomy n n' with hlt | heq | hlt
      · exact absurd hn' (honce n n' (by omega) hlt (by omega) inner outer outer' hn)
      · exact heq
      · exact absurd hn (honce n' n (by omega) hlt (by omega) inner outer' outer hn')
  · rintro ⟨hall, honce⟩
    constructor
    · -- every row of the table can be read
      intro n hle hlt
      have hcell (column : Nat) (hcolumn : column < 2) :
          ∃ value, image.cell Table.nestedClass n column = .ok value :=
        exists_cell hread (by decide)
          (show column < (Metadata.columns Table.nestedClass).length from hcolumn)
          (by omega) (by omega)
      obtain ⟨inner, hinner⟩ := hcell 0 (by decide)
      obtain ⟨outer, houter⟩ := hcell 1 (by decide)
      exact ⟨inner, outer, ⟨hinner, houter⟩, hall n inner outer ⟨hinner, houter⟩,
        getD_replicate_none _ _⟩
    · intro n n' hle hlt hlt' inner outer outer' hn hn'
      have heq := honce n n' inner outer outer' hn hn'
      omega

/-- What is known of the enclosing types of an image. -/
theorem enclosing_spec {image : Image} {enclosing : Enclosing}
    (h : image.enclosing = .ok enclosing) :
    enclosing.size = image.rows Table.typeDef + 1 ∧
      (∀ row, (enclosing.getD row none).isSome ↔ image.NamesNested row) ∧
      enclosing.LinksRows := by
  have hsize := size_readEnclosing h
  rw [Array.size_replicate] at hsize
  obtain ⟨hall, -⟩ := (exists_readEnclosing_iff (by simp)).1 ⟨enclosing, h⟩
  -- every nesting row was taken in, and so names two rows of types
  have hrows (n inner : Nat) (hn : image.cell Table.nestedClass n 0 = .ok inner) :
      ∃ outer, image.Links n inner outer ∧ image.HasTypeRow inner ∧ image.HasTypeRow outer := by
    have hrow := row_of_cell hn
    obtain ⟨inner', outer, hlinks, hbounds, -⟩ := hall n (by omega) (by omega)
    cases hn.symm.trans hlinks.1
    exact ⟨outer, hlinks, hbounds⟩
  refine ⟨hsize, ?_, ?_⟩
  · intro row
    rw [Option.isSome_iff_exists]
    constructor
    · rintro ⟨outer, houter⟩
      obtain ⟨n, hn⟩ := (nestedIn_iff h row outer).1 houter
      exact ⟨n, hn.1⟩
    · rintro ⟨n, hn⟩
      obtain ⟨outer, hlinks, -⟩ := hrows n row hn
      exact ⟨outer, (nestedIn_iff h row outer).2 ⟨n, hlinks⟩⟩
  · intro inner outer houter
    obtain ⟨n, hn⟩ := (nestedIn_iff h inner outer).1 houter
    obtain ⟨other, hlinks, hinner, hother⟩ := hrows n inner hn.1
    obtain ⟨-, rfl⟩ := hn.unique hlinks
    simp only [Enclosing.typeRows, hsize, List.mem_range'_1]
    simp only [HasTypeRow] at hinner hother
    omega

end PublicAssembly.Image
