import PublicAssembly.Proofs.Module.Listing

/-!
# The order of the list of types

The list of the types of a forest is made by work on a stack that no limit cuts short: the stack is
empty after as many passes as there are types (`IsForest.walks_iff`). In the list, every type is
followed by the types that it encloses, and by nothing else before them, so each of them is one
block. What the types say of themselves plays no part in it.

## Main definitions

* `Module.Walks`: what the work on a stack lists, however long it takes;
* `Module.block`: a type with the types nested in it, listed by recursion;
* `Module.ListsBlocks`: what there is to say about the list of the types.

## Main statements

* `Walks.unique`, `Shows.walks`: the work on a stack lists one thing, and that is the trees;
* `IsForest.mem_block`: the block of a type holds the types that it encloses;
* `Reachable.listsBlocks_flatten`: what is true of the list of the types of every module.
-/

namespace PublicAssembly.Module

open PublicAssembly.Tree (preorderAll)

variable {m : Module} {parent : Option Nat} {trees : List (Tree Nat)}

/-! ### Work without a limit -/

/-- The work on a stack lists some types: the type on top is taken off and listed, and the types
nested in it take its place, until the stack is empty. Unknown ids are left out. -/
inductive Walks (m : Module) : (stack listed : List Nat) → Prop where
  /-- The stack is empty. -/
  | done : Walks m [] []
  /-- There is no type of the id on top. -/
  | unknown {id : Nat} {stack listed : List Nat} (hget : m.get? id = none)
    (hrest : Walks m stack listed) : Walks m (id :: stack) listed
  /-- The type on top is listed, before the types nested in it. -/
  | known {id : Nat} {decl : TypeDecl} {stack listed : List Nat} (hget : m.get? id = some decl)
    (hrest : Walks m (decl.nested.toList ++ stack) listed) : Walks m (id :: stack) (id :: listed)

/-- The work on a stack lists one thing at most. -/
theorem Walks.unique {stack listed other : List Nat} (h : m.Walks stack listed)
    (hother : m.Walks stack other) : listed = other := by
  -- along the one walk: the first id of the stack decides how the other one goes on
  induction h generalizing other with
  | done =>
    cases hother
    rfl
  | unknown hget _ ih =>
    cases hother with
    | unknown _ hrest => exact ih hrest
    | known hknown _ =>
      rw [hget] at hknown
      cases hknown
  | @known id decl stack listed hget _ ih =>
    cases hother with
    | unknown hunknown _ =>
      rw [hget] at hunknown
      cases hunknown
    | known hknown hrest =>
      rw [hget] at hknown
      cases hknown
      rw [ih hrest]

/-- The work on a stack that begins with the roots of some trees lists these trees first. -/
theorem Shows.walks (h : m.Shows parent trees) {stack listed : List Nat}
    (hstack : m.Walks stack listed) :
    m.Walks (trees.map Tree.value ++ stack) (preorderAll trees ++ listed) := by
  induction h generalizing stack listed with
  | nil => simpa using hstack
  | @cons _ root children rest hid _ hnested _ _ ihc ihr =>
    have hget : m.get? root = some m.types[root] := Array.getElem?_eq_getElem hid
    rw [nestedIn, hget] at hnested
    dsimp only at hnested
    rw [List.map_cons, Tree.value, List.cons_append, Tree.preorderAll_cons, Tree.preorder_node,
      List.cons_append, List.cons_append, List.append_assoc]
    -- the children take the place of the root, and the other roots wait below them
    refine .known hget ?_
    rw [hnested]
    exact ihc (ihr hstack)

/-- The work on the types at the top of a forest lists the trees. -/
theorem IsForest.walks_iff (hm : m.IsForest) (listed : List Nat) :
    m.Walks m.roots.toList listed ↔ listed = m.flatten := by
  have hwalks : m.Walks m.roots.toList m.flatten := by
    have htop := hm.shows_forest.walks .done
    rwa [forest, map_value_subtree, ← forest, List.append_nil, List.append_nil, ← listing,
      ← hm.flatten_eq] at htop
  constructor
  · intro h
    exact h.unique hwalks
  · rintro rfl
    exact hwalks

/-! ### Blocks -/

/-- A type with the types nested in it, each before those nested in it in turn. -/
def block (m : Module) (id : Nat) : List Nat :=
  (m.subtree id).preorder

/-- The block of a type is the type and then the blocks of the types nested in it. -/
theorem IsForest.block_eq (hm : m.IsForest) {id : Nat} (hid : id < m.size) :
    m.block id = id :: (m.nestedIn id).flatMap m.block := by
  rw [block, hm.subtree_eq hid, Tree.preorder_node, Tree.preorderAll_eq_flatMap, List.flatMap_map]
  rfl

/-- The list of the types is made of the blocks of the types at the top. -/
theorem IsForest.flatten_eq_flatMap (hm : m.IsForest) :
    m.flatten = m.roots.toList.flatMap m.block := by
  rw [hm.flatten_eq, listing, forest, Tree.preorderAll_eq_flatMap, List.flatMap_map]
  rfl

/-- Types with the same parent follow the links with their blocks. -/
theorem IsForest.shows_subtree (hm : m.IsForest) {id : Nat} (hid : id < m.size) :
    m.Shows (m.parentOf? id) [m.subtree id] := by
  have hids : ∀ other ∈ [id], other < m.size ∧ m.parentOf? other = m.parentOf? id := by
    simpa using hid
  exact hm.shows_of_le hids fun _ _ => Nat.le_add_left m.size _

/-- A type encloses only types of the module. -/
theorem Encloses.lt_size {outer inner : Nat} (h : m.Encloses outer inner) (houter : outer < m.size) :
    inner < m.size := by
  cases h with
  | refl => exact houter
  | nested hparent _ => exact lt_size_of_parentOf? hparent

/-- The block of a type holds the types that it encloses. -/
theorem IsForest.mem_block (hm : m.IsForest) {id : Nat} (hid : id < m.size) (other : Nat) :
    other ∈ m.block id ↔ m.Encloses id other := by
  have hshows := hm.shows_subtree hid
  have hblock : preorderAll [m.subtree id] = m.block id := by simp [block]
  constructor
  · intro hmem
    rw [← hblock] at hmem
    obtain ⟨tree, htree, hencloses⟩ := hshows.exists_encloses other hmem
    obtain rfl := List.mem_singleton.1 htree
    rwa [value_subtree] at hencloses
  · -- from the type inwards: a type that is nested in one of the block stands in it, too
    intro hencloses
    induction hencloses with
    | refl =>
      rw [hm.block_eq hid]
      exact List.mem_cons_self
    | nested hparent _ ih =>
      rw [← hblock] at ih ⊢
      exact hshows.mem_of_nestedIn ih
        (hm.mem_nestedIn.2 ⟨lt_size_of_parentOf? hparent, hparent⟩)

/-- The block of a type is one piece of the list. -/
theorem IsForest.infix_flatten (hm : m.IsForest) {id : Nat} (hid : id < m.size) :
    m.block id <:+: m.flatten := by
  -- the block of a nested type is a piece of the block of its parent, which has a smaller id
  induction id using Nat.strongRecOn with
  | ind id ih =>
    cases hparent : m.parentOf? id with
    | none =>
      have hroot : id ∈ m.typesAt none := hm.mem_typesAt.2 ⟨hid, hparent⟩
      rw [hm.flatten_eq_flatMap]
      exact List.infix_flatMap_of_mem hroot m.block
    | some outer =>
      have hlt := hm.parent_lt hparent
      have houter : outer < m.size := Nat.lt_trans hlt hid
      refine .trans ?_ (ih outer hlt houter)
      rw [hm.block_eq houter]
      have hnested : id ∈ m.nestedIn outer := hm.mem_nestedIn.2 ⟨hid, hparent⟩
      exact (List.infix_flatMap_of_mem hnested m.block).trans (List.suffix_cons outer _).isInfix

/-- A type stands in the list before the types that it encloses. -/
theorem IsForest.idxOf_lt (hm : m.IsForest) {outer inner : Nat} (hencloses : m.Encloses outer inner)
    (hne : outer ≠ inner) (houter : outer < m.size) :
    m.flatten.idxOf outer < m.flatten.idxOf inner := by
  have hnodup : m.flatten.Nodup := hm.flatten_eq ▸ hm.nodup_listing
  obtain ⟨before, behind, hflatten⟩ := hm.infix_flatten houter
  have hmem : inner ∈ m.block outer := (hm.mem_block houter inner).2 hencloses
  rw [hm.block_eq houter, List.mem_cons] at hmem
  have hbelow := hmem.resolve_left hne.symm
  rw [hm.block_eq houter, List.append_assoc, List.cons_append] at hflatten
  -- neither stands before the block, and the block begins with the outer type
  rw [← hflatten] at hnodup
  have hapart := (List.nodup_append.1 hnodup).2.2
  have hfirst : outer ∉ before := fun h => hapart outer h outer List.mem_cons_self rfl
  have hlater : inner ∉ before := by
    intro h
    exact hapart inner h inner
      (List.mem_cons_of_mem _ (List.mem_append_left _ hbelow)) rfl
  rw [← hflatten, List.idxOf_append_of_notMem hfirst, List.idxOf_append_of_notMem hlater,
    List.idxOf_cons_self, List.idxOf_cons_ne _ hne]
  omega

/-! ### Edits -/

/-- Edit what some types say of themselves and their members, one type after the other. -/
def editAll (m : Module) (edits : List (Nat × (TypeDecl → TypeDecl))) : Module :=
  edits.foldl (fun m edit => m.editMembers edit.1 edit.2) m

/-- An edit of a type leaves the list of the types as it is. -/
theorem flatten_editMembers (m : Module) (id : Nat) (edit : TypeDecl → TypeDecl) :
    (m.editMembers id edit).flatten = m.flatten := by
  -- the work reads no more of a type than which types are nested in it
  have hstack (limit : Nat) (stack : List Nat) :
      (m.editMembers id edit).flattenStack limit stack = m.flattenStack limit stack := by
    induction limit generalizing stack with
    | zero => rfl
    | succ limit ih =>
      cases stack with
      | nil => rfl
      | cons top stack =>
        rw [flattenStack, flattenStack, get?_editMembers]
        cases m.get? top with
        | none => exact ih stack
        | some decl =>
          have hnested : (if id = top then (edit decl).linked decl.parent decl.nested.toList
              else decl).nested = decl.nested := by
            split <;> simp [TypeDecl.linked]
          dsimp only [Option.map_some]
          rw [hnested, ih]
  have hsize : (m.editMembers id edit).size = m.size := Array.size_modify
  rw [flatten, hsize, hstack]
  rfl

/-- Edits of some types leave the list of the types as it is. -/
theorem flatten_editAll (m : Module) (edits : List (Nat × (TypeDecl → TypeDecl))) :
    (m.editAll edits).flatten = m.flatten := by
  induction edits generalizing m with
  | nil => rfl
  | cons edit edits ih =>
    rw [editAll, List.foldl_cons, ← editAll, ih, flatten_editMembers]

/-! ### The list of the types -/

/-- What there is to say about the list of the types of a module. -/
structure ListsBlocks (m : Module) (order : List Nat) : Prop where
  /-- The work on the types at the top comes to an end, and lists them so. -/
  walks_iff : ∀ listed, m.Walks m.roots.toList listed ↔ listed = order
  /-- The list is made of the blocks of the types at the top, in order. -/
  eq_flatMap : order = m.roots.toList.flatMap m.block
  /-- A block is a type and then the blocks of the types nested in it, in order. -/
  block_eq : ∀ id < m.size, m.block id = id :: (m.nestedIn id).flatMap m.block
  /-- Every id is listed, and none twice. -/
  perm : order.Perm (List.range m.size)
  /-- A type is listed before the types that it encloses. -/
  idxOf_lt : ∀ outer < m.size, ∀ inner, m.Encloses outer inner → outer ≠ inner →
    order.idxOf outer < order.idxOf inner
  /-- The types that a type encloses are listed in one piece. -/
  block_infix : ∀ id < m.size,
    m.block id <:+: order ∧ ∀ other, other ∈ m.block id ↔ m.Encloses id other
  /-- Edits of what the types say of themselves and their members leave the list as it is. -/
  editAll_eq : ∀ edits, (m.editAll edits).flatten = order

/-- The types of every module that is built are listed once, each before the types that it
encloses, which form one block with it. -/
theorem Reachable.listsBlocks_flatten (h : m.Reachable) : m.ListsBlocks m.flatten where
  walks_iff := h.isForest.walks_iff
  eq_flatMap := h.isForest.flatten_eq_flatMap
  block_eq _ hid := h.isForest.block_eq hid
  perm := h.isForest.flatten_eq ▸ h.isForest.perm_listing
  idxOf_lt _ houter _ hencloses hne := h.isForest.idxOf_lt hencloses hne houter
  block_infix _ hid := ⟨h.isForest.infix_flatten hid, h.isForest.mem_block hid⟩
  editAll_eq := m.flatten_editAll

/-- In the sample, the type that is nested in the first stands right behind it, before the other
type at the top, although it was attached last. -/
theorem Reachable.listsBlocks_flatten_sampleModule :
    sampleModule.Reachable ∧ sampleModule.flatten = [0, 2, 1] ∧
      sampleModule.Walks [0, 1] [0, 2, 1] ∧ sampleModule.block 0 = [0, 2] ∧
      sampleModule.flatten.idxOf 0 < sampleModule.flatten.idxOf 2 := by
  have hlists := reachable_sampleModule.listsBlocks_flatten
  have hflatten : sampleModule.flatten = [0, 2, 1] := by decide
  have hroots : sampleModule.roots.toList = [0, 1] := by decide
  have hblock : sampleModule.block 0 = [0, 2] := by
    rw [hlists.block_eq 0 (by decide)]
    have hnested : sampleModule.nestedIn 0 = [2] := by decide
    have hbelow : sampleModule.nestedIn 2 = [] := by decide
    rw [hnested, List.flatMap_cons, hlists.block_eq 2 (by decide), hbelow]
    rfl
  refine ⟨reachable_sampleModule, hflatten, ?_, hblock, ?_⟩
  · rw [← hroots, ← hflatten]
    exact (hlists.walks_iff _).2 rfl
  · have hencloses : sampleModule.Encloses 0 2 := .nested (by decide) .refl
    exact hlists.idxOf_lt 0 (by decide) 2 hencloses (by decide)

end PublicAssembly.Module
