import PublicAssembly.Log.Line
import PublicAssembly.Module.Basic

/-!
# Sweeps over the types of a module

A sweep edits the types of a list of ids one after another. Each edit looks at one type alone,
counts what it changed and may leave log lines; the sweep adds up the counts and keeps the lines in
order. An id that is listed twice is edited twice, and an unknown id is passed over.
-/

namespace PublicAssembly

/-- What the edit of one type yields. -/
structure Edit (κ : Type) where
  /-- The type afterwards. -/
  decl : TypeDecl
  /-- The count of what changed. -/
  count : κ
  /-- What the log says about it. -/
  lines : List LogLine := []

/-- What a sweep yields. -/
structure Sweep (κ : Type) where
  /-- The module afterwards. -/
  module : Module
  /-- The sum of the counts. -/
  count : κ
  /-- The log lines of all edits, in order. -/
  lines : List LogLine

namespace Module

variable {κ : Type} [OfNat κ 0] [Add κ]

/-- Edit the types of the given ids one after another. -/
def sweep (edit : TypeDecl → Edit κ) : List Nat → Module → Sweep κ
  | [], m => ⟨m, 0, []⟩
  | id :: order, m =>
    match m.get? id with
    | none => sweep edit order m
    | some decl =>
      let edited := edit decl
      let rest := sweep edit order { m with types := m.types.setIfInBounds id edited.decl }
      ⟨rest.module, edited.count + rest.count, edited.lines ++ rest.lines⟩

@[simp]
theorem sweep_nil (edit : TypeDecl → Edit κ) (m : Module) : m.sweep edit [] = ⟨m, 0, []⟩ := rfl

/-- A sweep changes neither the number of types nor the roots, the name or the file. -/
theorem sweep_frame (edit : TypeDecl → Edit κ) (order : List Nat) (m : Module) :
    (m.sweep edit order).module.types.size = m.types.size ∧
      (m.sweep edit order).module.roots = m.roots ∧
      (m.sweep edit order).module.name = m.name ∧
      (m.sweep edit order).module.image = m.image := by
  induction order generalizing m with
  | nil => simp
  | cons id order ih =>
    rw [sweep]
    split
    · exact ih m
    · next decl _ =>
      have := ih { m with types := m.types.setIfInBounds id (edit decl).decl }
      simpa using this

end Module

end PublicAssembly
