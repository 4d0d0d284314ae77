import PublicAssembly.Proofs.Module.Listing

/-!
# New ids in the order of the trees

Attaching the types of a forest again, tree after tree, gives every type a new id: its position in
the list of the types. The links are the same, but name the types by their new ids.

## Main statements

* `Tree.rootNumbers_eq_map_idxOf`: the number of a root is its position;
* `Tree.Follows.arena_mapAll`: the links of types that are found by following links;
* `IsForest.ofTrees_forest`: the module of the trees of a module has the types of that module in
  the order of the list, with links between positions.
-/

namespace PublicAssembly

namespace Tree

variable {α β : Type}

@[simp]
theorem count_mapAll (f : α → β) (trees : List (Tree α)) :
    count (mapAll f trees) = count trees := by
  rw [count, count, preorderAll_mapAll, List.length_map]

@[simp]
theorem rootNumbers_mapAll (f : α → β) (first : Nat) (trees : List (Tree α)) :
    rootNumbers first (mapAll f trees) = rootNumbers first trees := by
  induction trees using forest_induction generalizing first with
  | nil => simp [mapAll]
  | cons value children rest _ ihr => simp [mapAll, ihr]

/-- The length of a list up to the last node below a root. -/
theorem length_append_root (before : List α) (root : α) (children : List (Tree α)) :
    (before ++ root :: preorderAll children).length = before.length + 1 + count children := by
  rw [List.length_append, List.length_cons, count]
  omega

/-- A value is found behind those before it in a list without repetition. -/
theorem idxOf_of_split [DecidableEq α] {order before behind : List α} {value : α}
    (horder : order = before ++ value :: behind) (hnodup : order.Nodup) :
    order.idxOf value = before.length := by
  subst horder
  have hnew : value ∉ before := fun hmem =>
    (List.nodup_append.1 hnodup).2.2 value hmem value List.mem_cons_self rfl
  rw [List.idxOf_append_of_notMem hnew, List.idxOf_cons_self, Nat.add_zero]

/-- The numbers of the roots of some trees are the positions of the roots in a list that holds the
values of the trees from the first number on. -/
theorem rootNumbers_eq_map_idxOf [DecidableEq α] {order before behind : List α}
    {trees : List (Tree α)} (horder : order = before ++ (preorderAll trees ++ behind))
    (hnodup : order.Nodup) :
    rootNumbers before.length trees = (trees.map value).map order.idxOf := by
  induction trees using forest_induction generalizing before with
  | nil => simp
  | cons root children rest _ ihr =>
    rw [preorderAll_cons, preorder_node] at horder
    have hroot : order.idxOf root = before.length :=
      idxOf_of_split (by simpa using horder) hnodup
    -- the next root stands behind all nodes of the first tree
    have hrest : order =
        (before ++ root :: preorderAll children) ++ (preorderAll rest ++ behind) := by
      simpa using horder
    rw [rootNumbers_node_cons, ← length_append_root, ihr hrest, List.map_cons, List.map_cons,
      value, hroot]

/-- The types of some trees that follow links, one after the other, have these links between their
positions. -/
theorem Follows.arena_mapAll [DecidableEq α] {parentOf : α → Option α} {nestedIn : α → List α}
    {parent : Option α} {trees : List (Tree α)} (h : Follows parentOf nestedIn parent trees)
    (content : α → TypeDecl) {order before behind : List α}
    (horder : order = before ++ (preorderAll trees ++ behind)) (hnodup : order.Nodup) :
    Module.arena (parent.map order.idxOf) before.length (mapAll content trees) =
      (preorderAll trees).map fun value => (content value).linked
        ((parentOf value).map order.idxOf) ((nestedIn value).map order.idxOf) := by
  induction h generalizing before behind with
  | nil => simp [mapAll]
  | @cons parent root children rest hparent hnested _ _ ihc ihr =>
    rw [preorderAll_cons, preorder_node] at horder
    have hroot : order.idxOf root = before.length :=
      idxOf_of_split (by simpa using horder) hnodup
    -- the children begin right behind the root, and the other trees behind the last of them
    have hchildren : order =
        (before ++ [root]) ++ (preorderAll children ++ (preorderAll rest ++ behind)) := by
      simpa using horder
    have hrest : order =
        (before ++ root :: preorderAll children) ++ (preorderAll rest ++ behind) := by
      simpa using horder
    have hfirst : (before ++ [root]).length = before.length + 1 := by simp
    have hlinks := rootNumbers_eq_map_idxOf hchildren hnodup
    have hbelow := ihc hchildren
    have hbehind := ihr hrest
    rw [hfirst, ← hnested] at hlinks
    rw [hfirst, Option.map_some, hroot] at hbelow
    rw [length_append_root] at hbehind
    rw [mapAll, map_node, Module.arena_node_cons, rootNumbers_mapAll, count_mapAll, hlinks,
      hbelow, hbehind, ← hparent]
    simp

end Tree

namespace Module

open PublicAssembly.Tree (preorderAll count rootNumbers mapAll)

variable {m : Module} {parent : Option Nat} {trees : List (Tree Nat)}

/-- The links of a type between positions in a list of types. -/
def relinked (m : Module) (order : List Nat) (id : Nat) (decl : TypeDecl) : TypeDecl :=
  decl.linked ((m.parentOf? id).map order.idxOf) ((m.nestedIn id).map order.idxOf)

/-- The types of some trees that follow the links of a module, one after the other, have the links
of that module between their positions. -/
theorem Shows.arena_mapAll (h : m.Shows parent trees) (content : Nat → TypeDecl)
    {order before behind : List Nat} (horder : order = before ++ (preorderAll trees ++ behind))
    (hnodup : order.Nodup) :
    arena (parent.map order.idxOf) before.length (mapAll content trees) =
      (preorderAll trees).map fun id => m.relinked order id (content id) :=
  h.follows.arena_mapAll content horder hnodup

/-- The module of the trees of a module has its types in the order of the list of types, with the
same links between positions in that list. -/
theorem IsForest.ofTrees_forest (hm : m.IsForest) (name : String) (content : Nat → TypeDecl) :
    ofTrees name (m.forest.map (Tree.map content)) =
      { name
        types := (m.flatten.map fun id => m.relinked m.flatten id (content id)).toArray
        roots := (m.roots.toList.map m.flatten.idxOf).toArray } := by
  have hlist : preorderAll m.forest = m.flatten := hm.flatten_eq.symm
  have horder : m.flatten = [] ++ (preorderAll m.forest ++ []) := by simp [hlist]
  have hnodup : m.flatten.Nodup := hm.flatten_eq ▸ hm.nodup_listing
  have harena := hm.shows_forest.arena_mapAll content horder hnodup
  have hroots := Tree.rootNumbers_eq_map_idxOf horder hnodup
  rw [List.length_nil, Option.map_none, hlist] at harena
  rw [List.length_nil, forest, map_value_subtree, ← forest] at hroots
  rw [← Tree.mapAll_eq, ofTrees, harena, Tree.rootNumbers_mapAll, hroots]

end Module

end PublicAssembly
