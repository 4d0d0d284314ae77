/-!
# Trees

Trees whose nodes have any number of children in order: the nesting of types.
-/

namespace PublicAssembly

/-- A tree with a value at each node. -/
inductive Tree (α : Type) where
  /-- A node with its children. -/
  | node (value : α) (children : List (Tree α))
  deriving Repr

namespace Tree

variable {α β : Type}

/-- The value at the root. -/
def value : Tree α → α
  | node value _ => value

/-- The trees below the root. -/
def children : Tree α → List (Tree α)
  | node _ children => children

mutual

/-- The values of a tree, each node before its children. -/
def preorder : Tree α → List α
  | node value children => value :: preorderAll children

/-- The values of some trees, tree after tree. -/
def preorderAll : List (Tree α) → List α
  | [] => []
  | tree :: rest => tree.preorder ++ preorderAll rest

end

mutual

/-- The tree with each value replaced. -/
def map (f : α → β) : Tree α → Tree β
  | node value children => node (f value) (mapAll f children)

/-- The trees with each value replaced. -/
def mapAll (f : α → β) : List (Tree α) → List (Tree β)
  | [] => []
  | tree :: rest => tree.map f :: mapAll f rest

end

@[simp]
theorem preorder_node (value : α) (children : List (Tree α)) :
    (node value children).preorder = value :: preorderAll children := by
  rw [preorder]

@[simp]
theorem preorderAll_nil : preorderAll ([] : List (Tree α)) = [] := by
  rw [preorderAll]

@[simp]
theorem preorderAll_cons (tree : Tree α) (rest : List (Tree α)) :
    preorderAll (tree :: rest) = tree.preorder ++ preorderAll rest := by
  rw [preorderAll]

/-- The values of two lists of trees, list after list. -/
theorem preorderAll_append (ts us : List (Tree α)) :
    preorderAll (ts ++ us) = preorderAll ts ++ preorderAll us := by
  induction ts with
  | nil => simp
  | cons t ts ih => simp [ih]

@[simp]
theorem map_node (f : α → β) (value : α) (children : List (Tree α)) :
    (node value children).map f = node (f value) (mapAll f children) := by
  rw [map]

/-- The number of nodes of some trees. -/
def count (trees : List (Tree α)) : Nat :=
  (preorderAll trees).length

@[simp]
theorem count_nil : count ([] : List (Tree α)) = 0 := by
  simp [count]

@[simp]
theorem count_node_cons (value : α) (children rest : List (Tree α)) :
    count (node value children :: rest) = 1 + count children + count rest := by
  simp [count]
  omega

/-- The nodes of two lists of trees. -/
theorem count_append (ts us : List (Tree α)) : count (ts ++ us) = count ts + count us := by
  rw [count, preorderAll_append, List.length_append, count, count]

/-- Replacing values tree by tree. -/
theorem mapAll_eq (f : α → β) (ts : List (Tree α)) : mapAll f ts = ts.map (map f) := by
  induction ts with
  | nil => rw [mapAll, List.map_nil]
  | cons t ts ih => rw [mapAll, ih, List.map_cons]

end Tree

end PublicAssembly
