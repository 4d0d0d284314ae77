import Mathlib.Data.Fintype.Card
import Mathlib.Data.Fintype.EquivFin
import Mathlib.Logic.Relation
import PublicAssembly.Proofs.Image.Nesting

/-!
# The trees are all that the enclosing types say

The trees of the type rows are grown up to a bound. The bound never cuts a row off: a row has fewer
types around it than there are type rows, so growing the trees without a bound comes to an end and
gives the same trees (`unfolds_iff`). They hold the rows that have a height, and a row has none
exactly if its enclosing types lead into a circle; so the trees hold every type row exactly if there
is no circle (`perm_forest_iff`).

## Main definitions

* `Enclosing.Unfolds`: following the enclosing types gives some trees.

## Main statements

* `HasHeight.lt_length`: the bound on the number of types around a row;
* `unfolds_iff`: the trees are what following the enclosing types gives, however deep it leads;
* `perm_forest_iff`: the trees hold every type row exactly if there is no circle.
-/

namespace PublicAssembly.Image.Enclosing

open PublicAssembly.Tree (preorderAll mapAll mapNestedAll)

variable {enclosing : Enclosing}

/-- Following the enclosing types from some rows that are nested in `parent` gives the trees. -/
def Unfolds (enclosing : Enclosing) (parent : Option Nat) (trees : List (Tree Nat)) : Prop :=
  Tree.Follows (fun row => enclosing.getD row none) (fun row => enclosing.nestedRows.getD row [])
    parent trees

/-! ### The greatest height -/

/-- The rows around a row are different type rows, as many as its height says. -/
theorem HasHeight.exists_chain (hrows : enclosing.LinksRows) {row height : Nat}
    (h : enclosing.HasHeight row height) (hrow : row ∈ enclosing.typeRows) :
    ∃ chain : List Nat, chain.length = height + 1 ∧ chain.Nodup ∧
      ∀ other ∈ chain, other ∈ enclosing.typeRows ∧ ∃ i ≤ height, enclosing.HasHeight other i := by
  induction h with
  | @top row htop =>
    refine ⟨[row], rfl, List.nodup_singleton row, fun other hother => ?_⟩
    rw [List.mem_singleton] at hother
    exact hother ▸ ⟨hrow, 0, Nat.le_refl 0, .top htop⟩
  | @nested row outer height houter hheight ih =>
    obtain ⟨chain, hlength, hnodup, hchain⟩ := ih (hrows row outer houter).2
    -- the row is higher than all rows around it
    have hnew : row ∉ chain := by
      intro hmem
      obtain ⟨-, i, hle, hi⟩ := hchain row hmem
      have heq := hi.unique (.nested houter hheight)
      omega
    refine ⟨row :: chain, by rw [List.length_cons, hlength], List.nodup_cons.2 ⟨hnew, hnodup⟩, ?_⟩
    refine List.forall_mem_cons.2 ⟨⟨hrow, height + 1, Nat.le_refl _, .nested houter hheight⟩, ?_⟩
    intro other hother
    obtain ⟨hmem, i, hle, hi⟩ := hchain other hother
    exact ⟨hmem, i, Nat.le_succ_of_le hle, hi⟩

/-- There are fewer types around a type row than there are type rows. -/
theorem HasHeight.lt_length (hrows : enclosing.LinksRows) {row height : Nat}
    (h : enclosing.HasHeight row height) (hrow : row ∈ enclosing.typeRows) :
    height < enclosing.typeRows.length := by
  obtain ⟨chain, hlength, hnodup, hchain⟩ := h.exists_chain hrows hrow
  have hsubset : chain ⊆ enclosing.typeRows := fun other hother => (hchain other hother).1
  have hle := (List.subperm_of_subset hnodup hsubset).length_le
  omega

/-! ### Growing without a bound -/

@[simp]
theorem value_growTree (below : Array (List Nat)) (depth row : Nat) :
    (growTree below depth row).value = row := by
  cases depth <;> rfl

/-- The roots of trees that are grown from some rows are these rows. -/
theorem map_value_growTree (below : Array (List Nat)) (depth : Nat) (rows : List Nat) :
    (rows.map (growTree below depth)).map Tree.value = rows := by
  simp [Function.comp_def]

/-- Trees that are grown deep enough for the height of their roots are not cut off. -/
theorem unfolds_growTree (hrows : enclosing.LinksRows) {depth height : Nat} {parent : Option Nat}
    {rows : List Nat} (hroots : ∀ row ∈ rows, row ∈ enclosing.typeRows ∧
      enclosing.getD row none = parent ∧ enclosing.HasHeight row height)
    (hdepth : enclosing.typeRows.length ≤ height + depth) :
    enclosing.Unfolds parent (rows.map (growTree enclosing.nestedRows depth)) := by
  induction depth generalizing height parent rows with
  | zero =>
    -- no row is that high
    cases rows with
    | nil => exact .nil
    | cons row rest =>
      obtain ⟨hrow, -, hheight⟩ := hroots row List.mem_cons_self
      have hlt := hheight.lt_length hrows hrow
      omega
  | succ depth ih =>
    induction rows with
    | nil => exact .nil
    | cons row rest ihrest =>
      rw [List.forall_mem_cons] at hroots
      obtain ⟨⟨hrow, hparent, hheight⟩, hrest⟩ := hroots
      -- the children are one higher than the row, and are grown one less deep
      have hchildren : ∀ child ∈ enclosing.nestedRows.getD row [], child ∈ enclosing.typeRows ∧
          enclosing.getD child none = some row ∧ enclosing.HasHeight child (height + 1) := by
        intro child hchild
        obtain ⟨hmem, houter⟩ := (mem_nestedRows row).2 child hchild
        exact ⟨hmem, houter, .nested houter hheight⟩
      rw [List.map_cons, growTree]
      exact .cons hparent (map_value_growTree _ _ _).symm (ih hchildren (by omega)) (ihrest hrest)

/-- The trees of the type rows are not cut off. -/
theorem unfolds_forest (hrows : enclosing.LinksRows) : enclosing.Unfolds none enclosing.forest := by
  have hroots : ∀ row ∈ enclosing.tops, row ∈ enclosing.typeRows ∧
      enclosing.getD row none = none ∧ enclosing.HasHeight row 0 := by
    intro row hrow
    obtain ⟨hmem, htop⟩ := mem_tops_iff.1 hrow
    exact ⟨hmem, htop, .top htop⟩
  refine unfolds_growTree hrows hroots ?_
  rw [typeRows, List.length_range']
  omega

/-- The trees of the type rows are what following the enclosing types from the rows at the top
gives, however deep it leads. -/
theorem unfolds_iff (hrows : enclosing.LinksRows) (trees : List (Tree Nat)) :
    enclosing.Unfolds none trees ∧ trees.map Tree.value = enclosing.tops ↔
      trees = enclosing.forest := by
  have hforest : enclosing.forest.map Tree.value = enclosing.tops := map_value_growTree _ _ _
  constructor
  · rintro ⟨hunfolds, hroots⟩
    exact hunfolds.unique (unfolds_forest hrows) (hroots.trans hforest.symm)
  · rintro rfl
    exact ⟨unfolds_forest hrows, hforest⟩

/-- Whether a row stands below another one is said by its enclosing type. -/
theorem mapNestedAll_forest (hrows : enclosing.LinksRows) {β : Type} (f : Bool → Nat → β) :
    mapNestedAll f false enclosing.forest =
      mapAll (fun row => f (enclosing.getD row none).isSome row) enclosing.forest :=
  (unfolds_forest hrows).mapNestedAll_eq f

/-! ### Circles -/

/-- The trees hold the type rows that have a height. -/
theorem mem_preorderAll_forest_iff (hrows : enclosing.LinksRows) {row : Nat} :
    row ∈ preorderAll enclosing.forest ↔
      row ∈ enclosing.typeRows ∧ ∃ height, enclosing.HasHeight row height := by
  constructor
  · intro hmem
    refine ⟨enclosing.nodup_preorderAll_forest.2 row hmem, ?_⟩
    rw [forest, Tree.preorderAll_eq_flatMap, List.flatMap_map, List.mem_flatMap] at hmem
    obtain ⟨root, hroot, hmem⟩ := hmem
    obtain ⟨steps, hsteps⟩ := ancestor_of_mem_growTree hmem
    exact ⟨_, .of_ancestor hsteps (.top (mem_tops_iff.1 hroot).2)⟩
  · rintro ⟨hrow, height, hheight⟩
    -- a nested row is below the row around it, which is in the trees
    induction hheight with
    | @top row htop =>
      have hroot : row ∈ enclosing.tops := mem_tops_iff.2 ⟨hrow, htop⟩
      have hmem := Tree.value_mem_preorderAll
        (List.mem_map_of_mem (f := growTree enclosing.nestedRows enclosing.size) hroot)
      rwa [value_growTree] at hmem
    | @nested row outer height houter _ ih =>
      have houterRow := (hrows row outer houter).2
      refine (unfolds_forest hrows).mem_of_nestedIn (ih houterRow) ?_
      have hsize : outer < enclosing.size := by
        rw [typeRows, List.mem_range'_1] at houterRow
        omega
      rw [getD_nestedRows, if_pos hsize, List.mem_filter]
      exact ⟨hrow, by simpa using houter⟩

/-- The rows that the enclosing types of a row lead to are less high. -/
theorem HasHeight.of_transGen {row outer height : Nat}
    (hlinks : Relation.TransGen enclosing.NestedIn row outer)
    (h : enclosing.HasHeight row height) : ∃ i < height, enclosing.HasHeight outer i := by
  have hstep {inner outer i : Nat} (hlink : enclosing.NestedIn inner outer)
      (hi : enclosing.HasHeight inner i) : ∃ j < i, enclosing.HasHeight outer j := by
    cases hi with
    | top htop =>
      rw [NestedIn, htop] at hlink
      cases hlink
    | @nested _ between j hbetween hj =>
      obtain rfl := Option.some.inj (hbetween.symm.trans hlink)
      exact ⟨j, Nat.lt_succ_self j, hj⟩
  -- every step outwards takes away some of the height
  induction hlinks with
  | single hlink => exact hstep hlink h
  | tail _ hlink ih =>
    obtain ⟨i, hi, hheight⟩ := ih
    obtain ⟨j, hj, hheight⟩ := hstep hlink hheight
    exact ⟨j, Nat.lt_trans hj hi, hheight⟩

/-- If no enclosing types lead back to where they started, every row has a height. -/
theorem exists_hasHeight_of_acyclic (hrows : enclosing.LinksRows)
    (hacyclic : ∀ row, ¬ Relation.TransGen enclosing.NestedIn row row) (row : Nat)
    (hrow : row < enclosing.size) : ∃ height, enclosing.HasHeight row height := by
  -- on finitely many rows, leading outwards is well-founded
  let leads (outer inner : Fin enclosing.size) : Prop :=
    Relation.TransGen enclosing.NestedIn inner outer
  have : IsTrans (Fin enclosing.size) leads := ⟨fun _ _ _ h h' => h'.trans h⟩
  have : Std.Irrefl leads := ⟨fun row => hacyclic row⟩
  have hwf : WellFounded leads := Finite.wellFounded_of_trans_of_irrefl leads
  suffices h : ∀ row : Fin enclosing.size, ∃ height, enclosing.HasHeight row height from h ⟨row, hrow⟩
  intro row
  induction row using hwf.induction with
  | h row ih =>
    cases houter : enclosing.getD row none with
    | none => exact ⟨0, .top houter⟩
    | some outer =>
      have hmem := (hrows row outer houter).2
      rw [typeRows, List.mem_range'_1] at hmem
      obtain ⟨height, hheight⟩ := ih ⟨outer, by omega⟩ (.single houter)
      exact ⟨height + 1, .nested houter hheight⟩

/-- The trees hold every type row exactly if no enclosing types lead back to where they started. -/
theorem perm_forest_iff (hrows : enclosing.LinksRows) :
    (preorderAll enclosing.forest).Perm enclosing.typeRows ↔
      ∀ row, ¬ Relation.TransGen enclosing.NestedIn row row := by
  constructor
  · -- a row that leads back to itself would be less high than it is
    intro hperm row hcircle
    obtain ⟨outer, hlink, -⟩ := Relation.TransGen.head'_iff.1 hcircle
    have hmem := hperm.mem_iff.2 (hrows row outer hlink).1
    obtain ⟨-, height, hheight⟩ := (mem_preorderAll_forest_iff hrows).1 hmem
    obtain ⟨i, hi, hother⟩ := hheight.of_transGen hcircle
    have heq := hheight.unique hother
    omega
  · intro hacyclic
    obtain ⟨hnodup, hsubset⟩ := enclosing.nodup_preorderAll_forest
    have hnodupRows : enclosing.typeRows.Nodup := List.nodup_range'
    -- neither list holds a row twice, so it is enough that they hold the same rows
    apply (List.perm_ext_iff_of_nodup hnodup hnodupRows).2
    intro row
    refine ⟨hsubset row, fun hrow => ?_⟩
    have hsize : row < enclosing.size := by
      rw [typeRows, List.mem_range'_1] at hrow
      omega
    exact (mem_preorderAll_forest_iff hrows).2
      ⟨hrow, exists_hasHeight_of_acyclic hrows hacyclic row hsize⟩

end PublicAssembly.Image.Enclosing
