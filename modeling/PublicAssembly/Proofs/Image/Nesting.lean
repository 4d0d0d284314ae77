import Mathlib.Data.List.Nodup
import Mathlib.Data.List.Perm.Subperm
import PublicAssembly.Proofs.Image.Linking
import PublicAssembly.Proofs.Module.Trees

/-!
# Every type row stands in the trees once

The trees of the type rows are grown from the rows that are nested in no other. Each row of such a
tree has a height, the number of its enclosing types, and a row has one height at most; so no row
stands at two places of the trees. When the trees have as many nodes as there are type rows, every
row stands there exactly once (`perm_forest`).

## Main definitions

* `Enclosing.HasHeight`: the number of types around a type row.

## Main statements

* `perm_forest`: the trees hold every type row once.
-/

namespace PublicAssembly.Image

open PublicAssembly.Tree (preorderAll)

/-- Grouping items by their owners puts into each place the items of that owner, in order. -/
theorem getElem?_foldr_modify {α : Type} (owner? : α → Option Nat) (items : List α)
    (size place : Nat) :
    (items.foldr (fun item groups =>
      match owner? item with
      | some owner => groups.modify owner (item :: ·)
      | none => groups) (Array.replicate size []))[place]? =
        if place < size then some (items.filter fun item => owner? item = some place)
        else none := by
  induction items with
  | nil => simp [Array.getElem?_replicate]
  | cons item rest ih =>
    rw [List.foldr_cons]
    cases howner : owner? item with
    | none => rw [ih, List.filter_cons_of_neg (by simp [howner])]
    | some other =>
      by_cases heq : other = place
      · subst heq
        rw [List.filter_cons_of_pos (by simp [howner])]
        -- the item comes in front of those behind it in the list
        simp only [Array.getElem?_modify, ih, if_true]
        split <;> rfl
      · rw [Array.getElem?_modify, if_neg heq, ih,
          List.filter_cons_of_neg (by simp [howner, heq])]

namespace Enclosing

/-! ### Heights -/

/-- The row that `steps` enclosing types lead to from a row. -/
def ancestor (enclosing : Enclosing) (row : Nat) : (steps : Nat) → Option Nat
  | 0 => some row
  | steps + 1 => (ancestor enclosing row steps).bind fun outer => enclosing.getD outer none

/-- The number of types around a type row. A row in a circle has no height. -/
inductive HasHeight (enclosing : Enclosing) : (row height : Nat) → Prop where
  /-- A row that is nested in no other has height 0. -/
  | top {row : Nat} (htop : enclosing.getD row none = none) : HasHeight enclosing row 0
  /-- A nested row is one higher than the row around it. -/
  | nested {row outer height : Nat} (houter : enclosing.getD row none = some outer)
    (hheight : HasHeight enclosing outer height) : HasHeight enclosing row (height + 1)

variable {enclosing : Enclosing}

/-- A row has one height at most. -/
theorem HasHeight.unique {row i j : Nat} (hi : enclosing.HasHeight row i)
    (hj : enclosing.HasHeight row j) : i = j := by
  -- along the way up, which does not branch: a row has one enclosing type at most
  induction hi generalizing j with
  | top htop =>
    cases hj with
    | top => rfl
    | nested houter _ =>
      rw [htop] at houter
      cases houter
  | nested houter _ ih =>
    cases hj with
    | top htop =>
      rw [htop] at houter
      cases houter
    | nested houter' hheight' =>
      rw [houter] at houter'
      cases houter'
      rw [ih hheight']

/-- A row is as much higher than one of its ancestors as there are steps between them. -/
theorem HasHeight.of_ancestor {row outer steps height : Nat}
    (h : enclosing.ancestor row steps = some outer) (houter : enclosing.HasHeight outer height) :
    enclosing.HasHeight row (height + steps) := by
  induction steps generalizing outer height with
  | zero =>
    cases h
    exact houter
  | succ steps ih =>
    rw [ancestor, Option.bind_eq_some_iff] at h
    obtain ⟨inner, hinner, hlink⟩ := h
    have hheight := ih hinner (.nested hlink houter)
    rwa [Nat.add_assoc, Nat.add_comm 1] at hheight

/-! ### The rows below a row -/

/-- The rows below a row are those that are nested in it, in order. -/
theorem getD_nestedRows (enclosing : Enclosing) (outer : Nat) :
    enclosing.nestedRows.getD outer [] =
      if outer < enclosing.size then
        enclosing.typeRows.filter fun row => enclosing.getD row none = some outer
      else [] := by
  have hplace := getElem?_foldr_modify (fun row => enclosing.getD row none) enclosing.typeRows
    enclosing.size outer
  change enclosing.nestedRows[outer]? = _ at hplace
  rw [Array.getD_eq_getD_getElem?, hplace]
  split <;> rfl

/-- The rows below a row are nested in it, and each is listed once. -/
theorem mem_nestedRows (outer : Nat) :
    (enclosing.nestedRows.getD outer []).Nodup ∧
      ∀ row ∈ enclosing.nestedRows.getD outer [],
        row ∈ enclosing.typeRows ∧ enclosing.getD row none = some outer := by
  rw [getD_nestedRows]
  split
  · refine ⟨List.Nodup.filter _ List.nodup_range', fun row hrow => ?_⟩
    simpa using List.mem_filter.1 hrow
  · simp

/-! ### The trees -/

/-- A row of a grown tree has the root of the tree as an ancestor. -/
theorem ancestor_of_mem_growTree {depth row root : Nat}
    (h : row ∈ (growTree enclosing.nestedRows depth root).preorder) :
    ∃ steps, enclosing.ancestor row steps = some root := by
  induction depth generalizing root with
  | zero =>
    rw [growTree] at h
    simp at h
    exact ⟨0, by rw [ancestor, h]⟩
  | succ depth ih =>
    rw [growTree, Tree.preorder_node, List.mem_cons, Tree.preorderAll_eq_flatMap,
      List.flatMap_map, List.mem_flatMap] at h
    rcases h with rfl | ⟨child, hchild, hrow⟩
    · exact ⟨0, rfl⟩
    · -- the root encloses the child, from which the row was reached
      obtain ⟨steps, hsteps⟩ := ih hrow
      refine ⟨steps + 1, ?_⟩
      rw [ancestor, hsteps, Option.bind_some, ((mem_nestedRows root).2 child hchild).2]

/-- Trees grown from rows of one height hold no row twice. -/
theorem nodup_preorderAll_growTree {depth height : Nat} {rows : List Nat} (hrows : rows.Nodup)
    (hheight : ∀ row ∈ rows, enclosing.HasHeight row height) :
    (preorderAll (rows.map (growTree enclosing.nestedRows depth))).Nodup := by
  induction depth generalizing rows height with
  | zero => simpa [Tree.preorderAll_eq_flatMap, List.flatMap_map, growTree] using hrows
  | succ depth ih =>
    rw [Tree.preorderAll_eq_flatMap, List.flatMap_map, List.nodup_flatMap]
    refine ⟨fun root hroot => ?_, hrows.imp_of_mem fun {a b} ha hb hne => ?_⟩
    · -- the rows below the root are higher than the root
      have hchild (child : Nat) (hmem : child ∈ enclosing.nestedRows.getD root []) :
          enclosing.HasHeight child (height + 1) :=
        .nested ((mem_nestedRows root).2 child hmem).2 (hheight root hroot)
      rw [growTree, Tree.preorder_node, List.nodup_cons]
      refine ⟨fun hmem => ?_, ih (mem_nestedRows root).1 hchild⟩
      rw [Tree.preorderAll_eq_flatMap, List.flatMap_map, List.mem_flatMap] at hmem
      obtain ⟨child, hmem, hbelow⟩ := hmem
      obtain ⟨steps, hsteps⟩ := ancestor_of_mem_growTree hbelow
      have hroot' := HasHeight.of_ancestor hsteps (hchild child hmem)
      have heq := (hheight root hroot).unique hroot'
      omega
    · -- a row of two trees would be as many steps above both roots
      refine List.disjoint_left.2 fun row hrowa hrowb => ?_
      obtain ⟨i, hi⟩ := ancestor_of_mem_growTree hrowa
      obtain ⟨j, hj⟩ := ancestor_of_mem_growTree hrowb
      have heq := (HasHeight.of_ancestor hi (hheight a ha)).unique
        (HasHeight.of_ancestor hj (hheight b hb))
      obtain rfl : i = j := by omega
      rw [hi] at hj
      cases hj
      exact hne rfl

/-- Trees grown from type rows hold type rows alone. -/
theorem mem_preorderAll_growTree {depth : Nat} {rows : List Nat}
    (hrows : ∀ row ∈ rows, row ∈ enclosing.typeRows) {row : Nat}
    (h : row ∈ preorderAll (rows.map (growTree enclosing.nestedRows depth))) :
    row ∈ enclosing.typeRows := by
  induction depth generalizing rows with
  | zero =>
    rw [Tree.preorderAll_eq_flatMap, List.flatMap_map, List.mem_flatMap] at h
    obtain ⟨root, hroot, hrow⟩ := h
    rw [growTree, Tree.preorder_node, Tree.preorderAll_nil, List.mem_singleton] at hrow
    exact hrow ▸ hrows root hroot
  | succ depth ih =>
    rw [Tree.preorderAll_eq_flatMap, List.flatMap_map, List.mem_flatMap] at h
    obtain ⟨root, hroot, hrow⟩ := h
    rw [growTree, Tree.preorder_node, List.mem_cons] at hrow
    -- a root is a type row by assumption, and what is nested in it by the grouping
    rcases hrow with rfl | hrow
    · exact hrows row hroot
    · exact ih (fun child hchild => ((mem_nestedRows root).2 child hchild).1) hrow

/-- The rows at the top are nested in no other, and each is listed once. -/
theorem mem_tops_iff {row : Nat} :
    row ∈ enclosing.tops ↔ row ∈ enclosing.typeRows ∧ enclosing.getD row none = none := by
  simp [tops]

/-- The trees hold type rows alone, and none twice. -/
theorem nodup_preorderAll_forest (enclosing : Enclosing) :
    (preorderAll enclosing.forest).Nodup ∧
      ∀ row ∈ preorderAll enclosing.forest, row ∈ enclosing.typeRows := by
  constructor
  · have hnodup : enclosing.tops.Nodup := List.Nodup.filter _ List.nodup_range'
    exact nodup_preorderAll_growTree hnodup fun row hrow => .top (mem_tops_iff.1 hrow).2
  · intro row hrow
    exact mem_preorderAll_growTree (fun root hroot => (mem_tops_iff.1 hroot).1) hrow

/-- Trees of as many nodes as there are type rows hold every type row once. -/
theorem perm_forest (h : (preorderAll enclosing.forest).length = enclosing.typeRows.length) :
    (preorderAll enclosing.forest).Perm enclosing.typeRows := by
  obtain ⟨hnodup, hrows⟩ := enclosing.nodup_preorderAll_forest
  exact (List.subperm_of_subset hnodup hrows).perm_of_length_le (Nat.le_of_eq h.symm)

end Enclosing

end PublicAssembly.Image
