import PublicAssembly.Proofs.Module.Reachable

/-!
# The types of a forest, listed

The links of a forest can be followed from the types at the top down, and this reaches every type
once. So the trees of a module are all of it, and working through them with a stack lists the types
as recursion does.

## Main definitions

* `Module.Shows`: following the links gives some trees;
* `Module.Encloses`: a type is another one, or has it nested in it at some depth.

## Main statements

* `IsForest.shows_forest`: following the links from the top gives the trees of the module;
* `IsForest.perm_listing`: the trees hold every type once;
* `IsForest.flatten_eq`: the list that is made with a stack is the one of the trees.
-/

namespace PublicAssembly.Module

open PublicAssembly.Tree (preorderAll count)

variable {m : Module} {parent : Option Nat} {trees : List (Tree Nat)}

/-! ### Following the links -/

/-- Following the links from some types with the given parent gives the trees. -/
inductive Shows (m : Module) : (parent : Option Nat) → List (Tree Nat) → Prop where
  /-- There are no types to follow. -/
  | nil {parent : Option Nat} : Shows m parent []
  /-- A type with the given parent is followed to the types nested in it. -/
  | cons {parent : Option Nat} {id : Nat} {children rest : List (Tree Nat)} (hid : id < m.size)
    (hparent : m.parentOf? id = parent) (hnested : m.nestedIn id = children.map Tree.value)
    (hchildren : Shows m (some id) children) (hrest : Shows m parent rest) :
    Shows m parent (.node id children :: rest)

@[simp]
theorem value_subtree (m : Module) (id : Nat) : (m.subtree id).value = id := by
  rw [subtree, Tree.value]

/-- The values of the trees of some types are these types. -/
theorem map_value_subtree (m : Module) (ids : List Nat) :
    (ids.map m.subtree).map Tree.value = ids := by
  simp [Function.comp_def]

/-- The tree of a type has the trees of the types nested in it below the type. -/
theorem IsForest.subtree_eq (hm : m.IsForest) {id : Nat} (hid : id < m.size) :
    m.subtree id = .node id ((m.nestedIn id).map m.subtree) := by
  have hget : m.get? id = some m.types[id] := Array.getElem?_eq_getElem hid
  have hnested : m.nestedIn id = m.types[id].nested.toList := by rw [nestedIn, hget]
  rw [hnested, Module.subtree_eq hget]
  intro child hchild
  rw [← hnested] at hchild
  obtain ⟨hlt, hparent⟩ := hm.mem_nestedIn.1 hchild
  exact ⟨hm.parent_lt hparent, hlt⟩

/-- Types with the same parent have trees that follow the links. -/
theorem IsForest.shows_of_le (hm : m.IsForest) {bound : Nat} {ids : List Nat}
    (hids : ∀ id ∈ ids, id < m.size ∧ m.parentOf? id = parent)
    (hbound : ∀ id ∈ ids, m.size ≤ id + bound) : m.Shows parent (ids.map m.subtree) := by
  -- nested types have greater ids, so there are fewer types behind them
  induction bound generalizing parent ids with
  | zero =>
    cases ids with
    | nil => exact .nil
    | cons id rest =>
      have hlt := hids id List.mem_cons_self
      have hle := hbound id List.mem_cons_self
      omega
  | succ bound ih =>
    induction ids with
    | nil => exact .nil
    | cons id rest ihrest =>
      rw [List.forall_mem_cons] at hids hbound
      obtain ⟨⟨hlt, hparent⟩, hrest⟩ := hids
      have hnested : ∀ child ∈ m.nestedIn id, child < m.size ∧ m.parentOf? child = some id :=
        fun child hchild => hm.mem_nestedIn.1 hchild
      rw [List.map_cons, hm.subtree_eq hlt]
      refine .cons hlt hparent (m.map_value_subtree _).symm (ih hnested fun child hchild => ?_)
        (ihrest hrest hbound.2)
      have hgreater := hm.parent_lt (hnested child hchild).2
      omega

/-- Following the links from the top gives the trees of the module. -/
theorem IsForest.shows_forest (hm : m.IsForest) : m.Shows none m.forest :=
  hm.shows_of_le (fun _ hid => hm.mem_typesAt.1 hid) fun _ _ => Nat.le_add_left _ _

/-- The roots of the trees have the given parent. -/
theorem Shows.parentOf?_value (h : m.Shows parent trees) :
    ∀ tree ∈ trees, m.parentOf? tree.value = parent := by
  induction h with
  | nil => simp
  | cons _ hparent _ _ _ _ ihr => exact List.forall_mem_cons.2 ⟨hparent, ihr⟩

/-- The trees hold types of the module. -/
theorem Shows.lt_size (h : m.Shows parent trees) : ∀ id ∈ preorderAll trees, id < m.size := by
  induction h with
  | nil => simp
  | cons hid _ _ _ _ ihc ihr => simpa using ⟨hid, fun x hx => hx.elim (ihc x) (ihr x)⟩

/-- The trees are found by following the parents and the nested types. -/
theorem Shows.follows (h : m.Shows parent trees) :
    Tree.Follows m.parentOf? m.nestedIn parent trees := by
  induction h with
  | nil => exact .nil
  | cons _ hparent hnested _ _ ihc ihr => exact .cons hparent hnested ihc ihr

/-- The types nested in a type of the trees are in the trees. -/
theorem Shows.mem_of_nestedIn (h : m.Shows parent trees) {outer inner : Nat}
    (houter : outer ∈ preorderAll trees) (hinner : inner ∈ m.nestedIn outer) :
    inner ∈ preorderAll trees :=
  h.follows.mem_of_nestedIn houter hinner

/-! ### Types around types -/

/-- A type encloses itself and the types that are nested in a type it encloses. -/
inductive Encloses (m : Module) (outer : Nat) : Nat → Prop where
  /-- A type encloses itself. -/
  | refl : Encloses m outer outer
  /-- A type encloses what is nested in a type it encloses. -/
  | nested {between inner : Nat} (hparent : m.parentOf? inner = some between)
    (h : Encloses m outer between) : Encloses m outer inner

namespace Encloses

variable {outer other inner : Nat}

/-- A type encloses what a type nested in it encloses. -/
theorem of_parentOf? (h : m.Encloses inner other) (hparent : m.parentOf? inner = some outer) :
    m.Encloses outer other := by
  induction h with
  | refl => exact .nested hparent .refl
  | nested hbetween _ ih => exact .nested hbetween ih

/-- A type was attached before the types that it encloses. -/
theorem le (h : m.Encloses outer inner) (hm : m.IsForest) : outer ≤ inner := by
  induction h with
  | refl => exact Nat.le_refl outer
  | nested hparent _ ih => exact Nat.le_trans ih (Nat.le_of_lt (hm.parent_lt hparent))

/-- Of two types that enclose a third one, one encloses the other. -/
theorem total (houter : m.Encloses outer inner) (hother : m.Encloses other inner) :
    m.Encloses outer other ∨ m.Encloses other outer := by
  induction houter with
  | refl => exact .inr hother
  | nested hparent h ih =>
    cases hother with
    | refl => exact .inl (.nested hparent h)
    | nested hparent' hother =>
      obtain rfl := Option.some.inj (hparent.symm.trans hparent')
      exact ih hother

/-- A type that encloses another one with the same parent is that one. -/
theorem eq_of_parentOf?_eq (h : m.Encloses outer inner) (hm : m.IsForest)
    (hparent : m.parentOf? outer = m.parentOf? inner) : outer = inner := by
  cases h with
  | refl => rfl
  | nested hinner h =>
    -- the type would be nested in one that it was attached before
    have hlt := hm.parent_lt (hparent.trans hinner)
    have hle := h.le hm
    omega

/-- Types with the same parent that enclose one type are the same. -/
theorem unique (houter : m.Encloses outer inner) (hother : m.Encloses other inner)
    (hm : m.IsForest) (hparent : m.parentOf? outer = m.parentOf? other) : outer = other := by
  rcases houter.total hother with h | h
  · exact h.eq_of_parentOf?_eq hm hparent
  · exact (h.eq_of_parentOf?_eq hm hparent.symm).symm

end Encloses

/-- A type of the trees is enclosed by the root of its tree. -/
theorem Shows.exists_encloses (h : m.Shows parent trees) :
    ∀ id ∈ preorderAll trees, ∃ tree ∈ trees, m.Encloses tree.value id := by
  induction h with
  | nil => simp
  | @cons _ root children rest hid hparent hnested hchildren _ ihc ihr =>
    intro id hmem
    simp only [Tree.preorderAll_cons, Tree.preorder_node, List.cons_append, List.mem_cons,
      List.mem_append] at hmem
    -- the root itself, a type below it, or one in the trees behind it
    rcases hmem with rfl | hmem | hmem
    · exact ⟨_, List.mem_cons_self, .refl⟩
    · obtain ⟨child, hchild, hencloses⟩ := ihc id hmem
      exact ⟨_, List.mem_cons_self,
        hencloses.of_parentOf? (hchildren.parentOf?_value child hchild)⟩
    · obtain ⟨tree, htree, hencloses⟩ := ihr id hmem
      exact ⟨tree, List.mem_cons_of_mem _ htree, hencloses⟩

/-! ### Every type once -/

/-- Trees with different roots hold no type twice. -/
theorem Shows.nodup_preorderAll (h : m.Shows parent trees) (hm : m.IsForest)
    (hroots : (trees.map Tree.value).Nodup) : (preorderAll trees).Nodup := by
  induction h with
  | nil => simp
  | @cons parent root children rest hid hparent hnested hchildren hrest ihc ihr =>
    have hbelow : (children.map Tree.value).Nodup := hnested ▸ hm.nodup_typesAt (some root)
    have hroot : ∀ id ∈ root :: preorderAll children, m.Encloses root id := by
      refine List.forall_mem_cons.2 ⟨.refl, fun id hmem => ?_⟩
      obtain ⟨child, hchild, hencloses⟩ := hchildren.exists_encloses id hmem
      exact hencloses.of_parentOf? (hchildren.parentOf?_value child hchild)
    rw [List.map_cons, List.nodup_cons] at hroots
    rw [Tree.preorderAll_cons, Tree.preorder_node, List.nodup_append, List.nodup_cons]
    refine ⟨⟨fun hmem => ?_, ihc hbelow⟩, ihr hroots.2, fun id hmem other hother => ?_⟩
    · -- what is below the root was attached behind it
      obtain ⟨child, hchild, hencloses⟩ := hchildren.exists_encloses root hmem
      have hlt := hm.parent_lt (hchildren.parentOf?_value child hchild)
      have hle := hencloses.le hm
      omega
    · -- a type of two trees would be enclosed by both roots
      rintro rfl
      obtain ⟨tree, htree, hencloses⟩ := hrest.exists_encloses id hother
      have heq := (hroot id hmem).unique hencloses hm
        (hparent.trans (hrest.parentOf?_value tree htree).symm)
      exact hroots.1 (List.mem_map.2 ⟨tree, htree, heq.symm⟩)

namespace IsForest

/-- Every type is in the trees. -/
theorem mem_listing (hm : m.IsForest) {id : Nat} (hid : id < m.size) : id ∈ m.listing := by
  -- up the links: what encloses a type has a smaller number
  induction id using Nat.strongRecOn with
  | ind id ih =>
    cases hparent : m.parentOf? id with
    | none =>
      have hroot : id ∈ m.typesAt none := hm.mem_typesAt.2 ⟨hid, hparent⟩
      have hvalue := Tree.value_mem_preorderAll (List.mem_map_of_mem (f := m.subtree) hroot)
      rwa [value_subtree] at hvalue
    | some outer =>
      have hlt := hm.parent_lt hparent
      exact hm.shows_forest.mem_of_nestedIn (ih outer hlt (by omega))
        (hm.mem_nestedIn.2 ⟨hid, hparent⟩)

/-- No type is in the trees twice. -/
theorem nodup_listing (hm : m.IsForest) : m.listing.Nodup := by
  refine hm.shows_forest.nodup_preorderAll hm ?_
  rw [forest, map_value_subtree]
  exact hm.nodup_typesAt none

/-- The trees hold every type once. -/
theorem perm_listing (hm : m.IsForest) : m.listing.Perm (List.range m.size) := by
  refine (List.perm_ext_iff_of_nodup hm.nodup_listing List.nodup_range).2 fun id => ?_
  rw [List.mem_range]
  exact ⟨hm.shows_forest.lt_size id, hm.mem_listing⟩

end IsForest

/-! ### Working through the trees with a stack -/

/-- Working through a stack that begins with the roots of some trees lists these trees first. -/
theorem Shows.flattenStack_eq (h : m.Shows parent trees) (limit : Nat) (stack : List Nat) :
    m.flattenStack (count trees + limit) (trees.map Tree.value ++ stack) =
      preorderAll trees ++ m.flattenStack limit stack := by
  induction h generalizing limit stack with
  | nil => simp
  | @cons _ root children rest hid hparent hnested _ _ ihc ihr =>
    have hget : m.get? root = some m.types[root] := Array.getElem?_eq_getElem hid
    -- one round for the root, which puts its children on the stack before the rest
    have hlimit : count (.node root children :: rest) + limit =
        (count children + (count rest + limit)) + 1 := by
      rw [Tree.count_node_cons]
      omega
    rw [nestedIn, hget] at hnested
    rw [hlimit, List.map_cons, Tree.value, List.cons_append, flattenStack, hget]
    dsimp only at hnested ⊢
    rw [hnested, ihc, ihr]
    simp

/-- The list that is made with a stack is the one of the trees. -/
theorem IsForest.flatten_eq (hm : m.IsForest) : m.flatten = m.listing := by
  have hcount : count m.forest = m.size :=
    hm.perm_listing.length_eq.trans List.length_range
  have hstack := hm.shows_forest.flattenStack_eq 0 []
  rw [forest, map_value_subtree, ← forest, hcount, List.append_nil, Nat.add_zero] at hstack
  rw [flatten, hstack, flattenStack, List.append_nil, listing]

end PublicAssembly.Module
