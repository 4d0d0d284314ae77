import PublicAssembly.Module.Tree
import PublicAssembly.Proofs.Reading

/-!
# Trees: induction, traversal and maps that know the top

The nesting of types is a list of trees, and what is proved about it is proved by one induction,
over a list of trees at once (`Tree.forest_induction`): the empty list, and a first tree whose
children and whose right neighbours are smaller lists.

Two operations complete those of `Tree`. `traverse` reads every value of some trees and fails with
the first value in pre-order that cannot be read. `mapNested` replaces values by a function that is
told whether the node stands at the top or below another one.

Trees are also found by following links from value to value; `Follows` says that some trees are what
is found.

## Main definitions

* `Tree.traverse`, `Tree.mapNested`: the two operations;
* `Tree.height`: how many values stand one below another;
* `Tree.Follows`: following links gives some trees.

## Main statements

* `preorderAll_traverse`: what is read stands where it was read;
* `exists_traverse`: a traversal succeeds if every value can be read;
* `mapNestedAll_traverse`: a map over what was read is a map over what it was read from.
-/

namespace PublicAssembly.Tree

open Reading

variable {α β γ ε : Type}

/-- What holds of no trees, and of a node before some trees whenever it holds of its children and
of the trees behind it, holds of all lists of trees. -/
@[elab_as_elim]
theorem forest_induction {motive : List (Tree α) → Prop} (nil : motive [])
    (cons : ∀ value children rest, motive children → motive rest →
      motive (node value children :: rest)) :
    ∀ trees, motive trees
  | [] => nil
  | node value children :: rest =>
    cons value children rest (forest_induction nil cons children)
      (forest_induction nil cons rest)
termination_by trees => sizeOf trees

/-- The values of some trees are those of each tree, one tree after the other. -/
theorem preorderAll_eq_flatMap (trees : List (Tree α)) :
    preorderAll trees = trees.flatMap preorder := by
  induction trees with
  | nil => simp
  | cons tree rest ih => rw [preorderAll_cons, ih, List.flatMap_cons]

/-- The root of a tree is one of its values. -/
theorem value_mem_preorderAll {tree : Tree α} {trees : List (Tree α)} (h : tree ∈ trees) :
    tree.value ∈ preorderAll trees := by
  rw [preorderAll_eq_flatMap, List.mem_flatMap]
  refine ⟨tree, h, ?_⟩
  cases tree
  simp [value]

/-- The roots of some trees are found among their values in order. -/
theorem map_value_sublist (trees : List (Tree α)) : (trees.map value).Sublist (preorderAll trees) := by
  induction trees with
  | nil => simp
  | cons tree rest ih =>
    obtain ⟨root, children⟩ := tree
    rw [List.map_cons, preorderAll_cons, preorder_node, List.cons_append]
    exact (ih.trans (List.sublist_append_right _ _)).cons_cons root

/-- Replacing values replaces them in pre-order. -/
theorem preorderAll_mapAll (f : α → β) (trees : List (Tree α)) :
    preorderAll (mapAll f trees) = (preorderAll trees).map f := by
  induction trees using forest_induction with
  | nil => simp [mapAll]
  | cons value children rest ihc ihr => simp [mapAll, map_node, ihc, ihr]

/-! ### Reading every value -/

mutual

/-- The tree of what each value is read as, or the first fault in pre-order. -/
def traverse (f : α → Except ε β) : Tree α → Except ε (Tree β)
  | node value children => do
    let value ← f value
    let children ← traverseAll f children
    return node value children

/-- The trees of what each value is read as, or the first fault in pre-order. -/
def traverseAll (f : α → Except ε β) : List (Tree α) → Except ε (List (Tree β))
  | [] => .ok []
  | tree :: rest => do
    let tree ← tree.traverse f
    let rest ← traverseAll f rest
    return tree :: rest

end

@[simp]
theorem traverseAll_nil (f : α → Except ε β) : traverseAll f [] = .ok [] := by
  rw [traverseAll]

/-- What it takes to read a node and the trees behind it. -/
theorem traverseAll_node_cons_eq_ok_iff {f : α → Except ε β} {value : α}
    {children rest : List (Tree α)} {trees : List (Tree β)} :
    traverseAll f (node value children :: rest) = .ok trees ↔
      ∃ v cs ts, f value = .ok v ∧ traverseAll f children = .ok cs ∧
        traverseAll f rest = .ok ts ∧ trees = node v cs :: ts := by
  rw [traverseAll, traverse]
  constructor
  · intro h
    simp only [bind_eq_ok_iff, pure_eq_ok_iff] at h
    obtain ⟨tree, ⟨v, hv, cs, hc, rfl⟩, ts, ht, rfl⟩ := h
    exact ⟨v, cs, ts, hv, hc, ht, rfl⟩
  · rintro ⟨v, cs, ts, hv, hc, ht, rfl⟩
    simp [hv, hc, ht]

/-- The values read are what the values in pre-order are read as, one by one. -/
theorem preorderAll_traverse {f : α → Except ε β} {trees : List (Tree α)}
    {read : List (Tree β)} (h : traverseAll f trees = .ok read) :
    (preorderAll trees).map f = (preorderAll read).map .ok := by
  induction trees using forest_induction generalizing read with
  | nil =>
    cases h
    simp
  | cons value children rest ihc ihr =>
    obtain ⟨v, cs, ts, hv, hc, ht, rfl⟩ := traverseAll_node_cons_eq_ok_iff.1 h
    simp [hv, ihc hc, ihr ht]

/-- What is made of the values read is made of the values they were read from. -/
theorem map_preorderAll_traverse {f : α → Except ε β} {g : β → γ} {h : α → γ}
    (hgh : ∀ value read, f value = .ok read → g read = h value)
    {trees : List (Tree α)} {read : List (Tree β)} (hread : traverseAll f trees = .ok read) :
    (preorderAll read).map g = (preorderAll trees).map h := by
  induction trees using forest_induction generalizing read with
  | nil =>
    cases hread
    simp
  | cons value children rest ihc ihr =>
    obtain ⟨v, cs, ts, hv, hc, ht, rfl⟩ := traverseAll_node_cons_eq_ok_iff.1 hread
    simp [hgh value v hv, ihc hc, ihr ht]

/-- A traversal succeeds if every value can be read. -/
theorem exists_traverse {f : α → Except ε β} {trees : List (Tree α)}
    (h : ∀ value ∈ preorderAll trees, ∃ v, f value = .ok v) :
    ∃ read, traverseAll f trees = .ok read := by
  induction trees using forest_induction with
  | nil => exact ⟨[], traverseAll_nil f⟩
  | cons value children rest ihc ihr =>
    obtain ⟨v, hv⟩ := h value (by simp)
    obtain ⟨cs, hc⟩ := ihc fun x hx => h x (by simp [hx])
    obtain ⟨ts, ht⟩ := ihr fun x hx => h x (by simp [hx])
    exact ⟨_, traverseAll_node_cons_eq_ok_iff.2 ⟨v, cs, ts, hv, hc, ht, rfl⟩⟩

/-- What was read is what a function makes of the values, if it makes of each value what the value
is read as. -/
theorem eq_mapAll_of_traverseAll {f : α → Except ε β} {g : α → β}
    (hfg : ∀ value read, f value = .ok read → g value = read) {trees : List (Tree α)}
    {read : List (Tree β)} (hread : traverseAll f trees = .ok read) : read = mapAll g trees := by
  induction trees using forest_induction generalizing read with
  | nil =>
    cases hread
    simp [mapAll]
  | cons value children rest ihc ihr =>
    obtain ⟨v, cs, ts, hv, hc, ht, rfl⟩ := traverseAll_node_cons_eq_ok_iff.1 hread
    rw [mapAll, map_node, hfg value v hv, ihc hc, ihr ht]

/-- Values that are read as they are make the same trees. -/
theorem traverseAll_ok (trees : List (Tree α)) :
    traverseAll (.ok : α → Except ε α) trees = .ok trees := by
  induction trees using forest_induction with
  | nil => exact traverseAll_nil _
  | cons value children rest ihc ihr =>
    exact traverseAll_node_cons_eq_ok_iff.2 ⟨value, children, rest, rfl, ihc, ihr, rfl⟩

/-- If every value that is written can be read, all are read. -/
theorem traverseAll_mapAll {f : α → Except ε β} {g : γ → α} {h : γ → β}
    (hfg : ∀ value, f (g value) = .ok (h value)) (trees : List (Tree γ)) :
    traverseAll f (mapAll g trees) = .ok (mapAll h trees) := by
  induction trees using forest_induction with
  | nil => simp [mapAll]
  | cons value children rest ihc ihr =>
    rw [mapAll, mapAll, map_node, map_node]
    exact traverseAll_node_cons_eq_ok_iff.2 ⟨_, _, _, hfg value, ihc, ihr, rfl⟩

/-- Writing what was read gives what it was read from, if it does for every value. -/
theorem mapAll_traverseAll {f : α → Except ε β} {g : β → α}
    (hgf : ∀ value read, f value = .ok read → g read = value) {trees : List (Tree α)}
    {read : List (Tree β)} (hread : traverseAll f trees = .ok read) : mapAll g read = trees := by
  induction trees using forest_induction generalizing read with
  | nil =>
    cases hread
    simp [mapAll]
  | cons value children rest ihc ihr =>
    obtain ⟨v, cs, ts, hv, hc, ht, rfl⟩ := traverseAll_node_cons_eq_ok_iff.1 hread
    rw [mapAll, map_node, hgf value v hv, ihc hc, ihr ht]

/-! ### Maps that know the top -/

mutual

/-- The tree with each value replaced by a function that is told whether the node is nested in
another one; the root is if `nested` says so. -/
def mapNested (f : Bool → α → β) (nested : Bool) : Tree α → Tree β
  | node value children => node (f nested value) (mapNestedAll f true children)

/-- The trees with each value replaced by a function that is told whether the node is nested in
another one; the roots are if `nested` says so. -/
def mapNestedAll (f : Bool → α → β) (nested : Bool) : List (Tree α) → List (Tree β)
  | [] => []
  | tree :: rest => tree.mapNested f nested :: mapNestedAll f nested rest

end

@[simp]
theorem mapNestedAll_nil (f : Bool → α → β) (nested : Bool) : mapNestedAll f nested [] = [] := by
  rw [mapNestedAll]

@[simp]
theorem mapNestedAll_node_cons (f : Bool → α → β) (nested : Bool) (value : α)
    (children rest : List (Tree α)) :
    mapNestedAll f nested (node value children :: rest) =
      node (f nested value) (mapNestedAll f true children) :: mapNestedAll f nested rest := by
  rw [mapNestedAll, mapNested]

/-- Replacing values twice is replacing them once by both functions. -/
theorem mapAll_mapNestedAll (g : β → γ) (f : Bool → α → β) (nested : Bool)
    (trees : List (Tree α)) :
    mapAll g (mapNestedAll f nested trees) = mapNestedAll (fun b v => g (f b v)) nested trees := by
  induction trees using forest_induction generalizing nested with
  | nil => simp [mapAll]
  | cons value children rest ihc ihr => simp [mapAll, map_node, ihc, ihr]

/-- Replacing what was read is replacing what it was read from, if the two replacements agree on
every value. -/
theorem mapNestedAll_traverse {f : α → Except ε β} {g : Bool → β → γ} {h : Bool → α → γ}
    (hgh : ∀ nested value read, f value = .ok read → g nested read = h nested value)
    {trees : List (Tree α)} {read : List (Tree β)} (hread : traverseAll f trees = .ok read)
    (nested : Bool) : mapNestedAll g nested read = mapNestedAll h nested trees := by
  induction trees using forest_induction generalizing read nested with
  | nil =>
    cases hread
    simp
  | cons value children rest ihc ihr =>
    obtain ⟨v, cs, ts, hv, hc, ht, rfl⟩ := traverseAll_node_cons_eq_ok_iff.1 hread
    rw [mapNestedAll_node_cons, mapNestedAll_node_cons, hgh nested value v hv, ihc hc, ihr ht]

/-- If values that are replaced can be read where the values were read, all are read. -/
theorem traverseAll_mapNestedAll {f : α → Except ε β} {g : Bool → α → α} {edit : Bool → β → β}
    (hfg : ∀ nested value read, f value = .ok read → f (g nested value) = .ok (edit nested read))
    {trees : List (Tree α)} {read : List (Tree β)} (hread : traverseAll f trees = .ok read)
    (nested : Bool) :
    traverseAll f (mapNestedAll g nested trees) = .ok (mapNestedAll edit nested read) := by
  induction trees using forest_induction generalizing read nested with
  | nil =>
    cases hread
    simp
  | cons value children rest ihc ihr =>
    obtain ⟨v, cs, ts, hv, hc, ht, rfl⟩ := traverseAll_node_cons_eq_ok_iff.1 hread
    rw [mapNestedAll_node_cons, mapNestedAll_node_cons]
    exact traverseAll_node_cons_eq_ok_iff.2
      ⟨_, _, _, hfg nested value v hv, ihc hc true, ihr ht nested, rfl⟩

/-- Values that can be read can be read by another reading that edits what the first one gives,
even with regard to the top, if the values say themselves whether they stand at the top. -/
theorem traverseAll_eq_mapNestedAll {f other : α → Except ε β} {edit : Bool → β → β}
    {isNested : α → Bool} {trees : List (Tree α)} {read : List (Tree β)} {nested : Bool}
    (hread : traverseAll f trees = .ok read)
    (hnested : mapNestedAll Prod.mk nested trees = mapAll (fun value => (isNested value, value)) trees)
    (hother : ∀ value ∈ preorderAll trees, ∀ v, f value = .ok v →
      other value = .ok (edit (isNested value) v)) :
    traverseAll other trees = .ok (mapNestedAll edit nested read) := by
  induction trees using forest_induction generalizing read nested with
  | nil =>
    cases hread
    simp
  | cons value children rest ihc ihr =>
    obtain ⟨v, cs, ts, hv, hc, ht, rfl⟩ := traverseAll_node_cons_eq_ok_iff.1 hread
    -- what the values say of the top holds of the node, of those below it and of those behind it
    rw [mapNestedAll_node_cons, mapAll, map_node, List.cons.injEq, node.injEq, Prod.mk.injEq]
      at hnested
    obtain ⟨⟨⟨htop, -⟩, hchildren⟩, hrest⟩ := hnested
    rw [mapNestedAll_node_cons]
    refine traverseAll_node_cons_eq_ok_iff.2 ⟨_, _, _, ?_, ihc hc hchildren fun x hx => ?_,
      ihr ht hrest fun x hx => ?_, rfl⟩
    · rw [htop]
      exact hother value (by simp) v hv
    · exact hother x (by simp [hx])
    · exact hother x (by simp [hx])

/-! ### Heights -/

mutual

/-- How many values stand one below another in a tree at most. -/
def height : Tree α → Nat
  | node _ children => heightAll children + 1

/-- How many values stand one below another in some trees at most. -/
def heightAll : List (Tree α) → Nat
  | [] => 0
  | tree :: rest => max tree.height (heightAll rest)

end

@[simp]
theorem heightAll_nil : heightAll ([] : List (Tree α)) = 0 := by
  rw [heightAll]

@[simp]
theorem heightAll_node_cons (value : α) (children rest : List (Tree α)) :
    heightAll (node value children :: rest) = max (heightAll children + 1) (heightAll rest) := by
  rw [heightAll, height]

/-- Replacing values leaves the height. -/
@[simp]
theorem heightAll_mapNestedAll (f : Bool → α → β) (nested : Bool) (trees : List (Tree α)) :
    heightAll (mapNestedAll f nested trees) = heightAll trees := by
  induction trees using forest_induction generalizing nested with
  | nil => simp
  | cons value children rest ihc ihr => simp [ihc, ihr]

/-! ### Following links -/

/-- Following links from some values with the given parent gives the trees: each value names its
parent, and the values nested in it are those of its children, in order. -/
inductive Follows (parentOf : α → Option α) (nestedIn : α → List α) :
    (parent : Option α) → List (Tree α) → Prop where
  /-- There are no values to follow. -/
  | nil {parent : Option α} : Follows parentOf nestedIn parent []
  /-- A value with the given parent is followed to the values nested in it. -/
  | cons {parent : Option α} {value : α} {children rest : List (Tree α)}
    (hparent : parentOf value = parent) (hnested : nestedIn value = children.map Tree.value)
    (hchildren : Follows parentOf nestedIn (some value) children)
    (hrest : Follows parentOf nestedIn parent rest) :
    Follows parentOf nestedIn parent (.node value children :: rest)

/-- The values nested in a value of the trees are in the trees. -/
theorem Follows.mem_of_nestedIn {parentOf : α → Option α} {nestedIn : α → List α}
    {parent : Option α} {trees : List (Tree α)} (h : Follows parentOf nestedIn parent trees)
    {outer inner : α} (houter : outer ∈ preorderAll trees) (hinner : inner ∈ nestedIn outer) :
    inner ∈ preorderAll trees := by
  induction h with
  | nil => simp at houter
  | cons _ hnested _ _ ihc ihr =>
    simp only [preorderAll_cons, preorder_node, List.cons_append, List.mem_cons,
      List.mem_append] at houter ⊢
    -- the value is a root, or stands below one, or behind it
    rcases houter with rfl | houter | houter
    · rw [hnested, List.mem_map] at hinner
      obtain ⟨child, hchild, rfl⟩ := hinner
      exact .inr (.inl (value_mem_preorderAll hchild))
    · exact .inr (.inl (ihc houter))
    · exact .inr (.inr (ihr houter))

/-- From given roots, following links gives one list of trees at most. -/
theorem Follows.unique {parentOf : α → Option α} {nestedIn : α → List α} {parent other : Option α}
    {trees others : List (Tree α)} (h : Follows parentOf nestedIn parent trees)
    (hothers : Follows parentOf nestedIn other others)
    (hroots : trees.map value = others.map value) : trees = others := by
  induction h generalizing other others with
  | nil =>
    cases hothers with
    | nil => rfl
    | cons => simp at hroots
  | cons _ hnested _ _ ihc ihr =>
    cases hothers with
    | nil => simp at hroots
    | cons _ hnested' hchildren' hrest' =>
      -- the same root has the same values nested in it, and so the same trees below it
      rw [List.map_cons, List.map_cons, List.cons.injEq] at hroots
      obtain ⟨hroot, hroots⟩ := hroots
      dsimp only [value] at hroot
      subst hroot
      rw [ihc hchildren' (hnested.symm.trans hnested'), ihr hrest' hroots]

/-- In trees that follow links, a value stands below another one if it has a parent. -/
theorem Follows.mapNestedAll_eq {parentOf : α → Option α} {nestedIn : α → List α}
    {parent : Option α} {trees : List (Tree α)} (h : Follows parentOf nestedIn parent trees)
    (f : Bool → α → β) :
    mapNestedAll f parent.isSome trees = mapAll (fun value => f (parentOf value).isSome value) trees := by
  induction h with
  | nil => simp [mapAll]
  | cons hparent _ _ _ ihc ihr =>
    rw [mapNestedAll_node_cons, mapAll, map_node, hparent, ihr, ← ihc, Option.isSome_some]

end PublicAssembly.Tree
