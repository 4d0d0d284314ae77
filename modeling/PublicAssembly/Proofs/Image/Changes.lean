import PublicAssembly.Image.Patch
import PublicAssembly.Proofs.Bytes.Agreement
import PublicAssembly.Proofs.Reading

/-!
# What some changes do to a file

Changes are applied one after another, and a later one wins. When all changes that cover a place
put the same byte there, the order does not matter, and the file can be described place by place.

## Main statements

* `getElem?_applyAll`: what is at a place that all changes agree on;
* `getElem?_applyAll_of_uncovered`: a place that no change covers stays as it is;
* `patch_eq_ok_iff`: a module is written back by the changes that are collected for it.
-/

namespace PublicAssembly.Image

open Reading

namespace Patch

/-- The change puts a byte at the place. -/
def Covers (change : Patch) (i : Nat) : Prop :=
  change.offset ≤ i ∧ i < change.offset + change.bytes.length

instance (change : Patch) (i : Nat) : Decidable (change.Covers i) :=
  inferInstanceAs (Decidable (_ ∧ _))

/-- What is at a place after a change. -/
theorem getElem?_apply (data : Bytes) (change : Patch) {i : Nat} (hi : i < data.size) :
    (change.apply data)[i]? =
      if change.Covers i then change.bytes[i - change.offset]? else data[i]? :=
  Bytes.getElem?_overwrite data change.offset change.bytes hi

end Patch

/-- A place where all covering changes put the same byte has this byte in the end, if a change
covers the place or the byte was there before. -/
theorem getElem?_applyAll {data : Bytes} {changes : List Patch} {i : Nat} (hi : i < data.size)
    {b : Option UInt8}
    (hagree : ∀ change ∈ changes, change.Covers i → change.bytes[i - change.offset]? = b)
    (hb : (∃ change ∈ changes, change.Covers i) ∨ data[i]? = b) :
    (applyAll data changes)[i]? = b := by
  induction changes generalizing data with
  | nil =>
    rcases hb with ⟨change, hmem, -⟩ | hb
    · cases hmem
    · exact hb
  | cons change rest ih =>
    rw [applyAll, List.foldl_cons]
    refine ih (by rwa [Patch.size_apply])
      (fun change hmem => hagree change (List.mem_cons_of_mem _ hmem)) ?_
    -- unless a later change covers the place, the first one decides or leaves it
    by_cases hlater : ∃ change ∈ rest, change.Covers i
    · exact .inl hlater
    · right
      rw [Patch.getElem?_apply data change hi]
      by_cases hcovers : change.Covers i
      · rw [if_pos hcovers, hagree change List.mem_cons_self hcovers]
      · rw [if_neg hcovers]
        rcases hb with ⟨other, hmem, hother⟩ | hb
        · rcases List.mem_cons.1 hmem with rfl | hmem
          · exact absurd hother hcovers
          · exact absurd ⟨other, hmem, hother⟩ hlater
        · exact hb

/-- A place that no change covers stays as it is. -/
theorem getElem?_applyAll_of_uncovered {data : Bytes} {changes : List Patch} {i : Nat}
    (h : ∀ change ∈ changes, ¬ change.Covers i) : (applyAll data changes)[i]? = data[i]? := by
  rcases Nat.lt_or_ge i data.size with hi | hi
  · exact getElem?_applyAll hi (fun change hmem hcovers => absurd hcovers (h change hmem))
      (.inr rfl)
  · rw [Array.getElem?_eq_none hi, Array.getElem?_eq_none (by rwa [size_applyAll])]

/-- Writing back a module is to read the image, to collect the changes that the module asks for, and
to make them. -/
theorem patch_eq_ok_iff {m : Module} {data out : Bytes} :
    patch m data = .ok out ↔ ∃ image changes, Image.read data = .ok image ∧
      image.patches m = .ok changes ∧ out = applyAll data changes := by
  simp only [patch, patchCounted, bind_eq_ok_iff, pure_eq_ok_iff, Prod.exists, Prod.mk.injEq]
  constructor
  · rintro ⟨_, _, ⟨image, hread, changes, hchanges, rfl, -⟩, rfl⟩
    exact ⟨image, changes, hread, hchanges, rfl⟩
  · rintro ⟨image, changes, hread, hchanges, rfl⟩
    exact ⟨_, _, ⟨image, hread, changes, hchanges, rfl, rfl⟩, rfl⟩

end PublicAssembly.Image
