import PublicAssembly.Module.Forest
import PublicAssembly.Proofs.Module.Trees

/-!
# The arena of a forest

Attaching the nodes of some trees in pre-order leaves nothing to chance: the ids are the numbers of
the nodes in pre-order, a type knows the number of the node above it, and the types nested in it
are the numbers of its children. `Module.ofTrees` writes that module down directly, and everything
a module built from trees is asked for can be read off the trees.

## Main definitions

* `Tree.rootNumbers`: the numbers of the roots of some trees, counted in pre-order;
* `Module.arena`: the types of some trees with their links, in pre-order;
* `Module.ofTrees`: the module of some trees.

## Main statements

* `attachTrees_empty_eq_ok_iff`: attaching trees gives exactly the module of the trees;
* `flatten_ofTrees`: its types are listed in the order of their ids;
* `forest_ofTrees`: its nesting is that of the trees.
-/

namespace PublicAssembly

open Reading

namespace Tree

variable {α β ε : Type}

/-- The numbers of the roots of some trees, whose nodes are counted in pre-order from `first`. -/
def rootNumbers (first : Nat) : List (Tree α) → List Nat
  | [] => []
  | tree :: rest => first :: rootNumbers (first + count [tree]) rest

@[simp]
theorem rootNumbers_nil (first : Nat) : rootNumbers first ([] : List (Tree α)) = [] := rfl

@[simp]
theorem rootNumbers_node_cons (first : Nat) (value : α) (children rest : List (Tree α)) :
    rootNumbers first (node value children :: rest) =
      first :: rootNumbers (first + 1 + count children) rest := by
  simp [rootNumbers, Nat.add_assoc]

/-- Roots are numbered from the first number on. -/
theorem le_of_mem_rootNumbers {first id : Nat} {trees : List (Tree α)}
    (h : id ∈ rootNumbers first trees) : first ≤ id ∧ id < first + count trees := by
  induction trees using forest_induction generalizing first with
  | nil => simp at h
  | cons value children rest _ ihr =>
    rw [rootNumbers_node_cons, List.mem_cons] at h
    rw [count_node_cons]
    rcases h with rfl | h
    · omega
    · have := ihr h
      omega

/-- Replacing values keeps the number of nodes. -/
@[simp]
theorem count_mapNestedAll (f : Bool → α → β) (nested : Bool) (trees : List (Tree α)) :
    count (mapNestedAll f nested trees) = count trees := by
  induction trees using forest_induction generalizing nested with
  | nil => simp
  | cons value children rest ihc ihr => simp [ihc, ihr]

/-- Replacing values keeps the numbers of the roots. -/
@[simp]
theorem rootNumbers_mapNestedAll (f : Bool → α → β) (nested : Bool) (first : Nat)
    (trees : List (Tree α)) :
    rootNumbers first (mapNestedAll f nested trees) = rootNumbers first trees := by
  induction trees using forest_induction generalizing first with
  | nil => simp
  | cons value children rest _ ihr => simp [ihr]

end Tree

open PublicAssembly.Tree (count rootNumbers preorderAll traverseAll forest_induction mapNestedAll
  traverseAll_node_cons_eq_ok_iff)

/-- The type with the given links in place of its own. -/
def TypeDecl.linked (decl : TypeDecl) (parent : Option Nat) (nested : List Nat) : TypeDecl :=
  { decl with parent, nested := nested.toArray }

namespace Module

mutual

/-- The types of a tree with their links, in pre-order: the root is nested in `parent` and has the
number `first`. -/
def arenaTree (parent : Option Nat) (first : Nat) : Tree TypeDecl → List TypeDecl
  | .node decl children =>
    decl.linked parent (rootNumbers (first + 1) children) ::
      arena (some first) (first + 1) children

/-- The types of some trees with their links, in pre-order: the roots are nested in `parent` and
the first of them has the number `first`. -/
def arena (parent : Option Nat) (first : Nat) : List (Tree TypeDecl) → List TypeDecl
  | [] => []
  | tree :: rest => arenaTree parent first tree ++ arena parent (first + count [tree]) rest

end

@[simp]
theorem arena_nil (parent : Option Nat) (first : Nat) : arena parent first [] = [] := by
  rw [arena]

@[simp]
theorem arena_node_cons (parent : Option Nat) (first : Nat) (decl : TypeDecl)
    (children rest : List (Tree TypeDecl)) :
    arena parent first (.node decl children :: rest) =
      decl.linked parent (rootNumbers (first + 1) children) ::
        (arena (some first) (first + 1) children ++
          arena parent (first + 1 + count children) rest) := by
  rw [arena, arenaTree]
  simp [Nat.add_assoc]

/-- There is one type for each node. -/
@[simp]
theorem length_arena (parent : Option Nat) (first : Nat) (trees : List (Tree TypeDecl)) :
    (arena parent first trees).length = count trees := by
  induction trees using forest_induction generalizing parent first with
  | nil => simp
  | cons decl children rest ihc ihr =>
    simp [ihc, ihr]
    omega

/-- The types stand in the order of the nodes, as far as their links do not matter. -/
theorem map_arena_eq {α : Type} {content : TypeDecl → α}
    (hcontent : ∀ decl parent ids, content (decl.linked parent ids) = content decl)
    (parent : Option Nat) (first : Nat) (trees : List (Tree TypeDecl)) :
    (arena parent first trees).map content = (preorderAll trees).map content := by
  induction trees using forest_induction generalizing parent first with
  | nil => simp
  | cons decl children rest ihc ihr => simp [hcontent, ihc, ihr]

/-- The module of some trees: its ids are the numbers of the nodes in pre-order. -/
def ofTrees (name : String) (trees : List (Tree TypeDecl)) : Module :=
  { name
    types := (arena none 0 trees).toArray
    roots := (rootNumbers 0 trees).toArray }

@[simp]
theorem size_ofTrees (name : String) (trees : List (Tree TypeDecl)) :
    (ofTrees name trees).size = count trees := by
  simp [ofTrees, size]

/-! ### Attaching trees -/

/-- The module with more types nested in `parent`, or more types at the top. -/
def adopt (m : Module) (parent : Option Nat) (ids : List Nat) : Module :=
  match parent with
  | none => { m with roots := m.roots ++ ids.toArray }
  | some id => m.modify id fun decl => { decl with nested := decl.nested ++ ids.toArray }

/-- The module with more types behind those it has. -/
def extend (m : Module) (decls : List TypeDecl) : Module :=
  { m with types := m.types ++ decls.toArray }

/-- The place of new types is in the module. -/
def HasPlace (m : Module) : Option Nat → Prop
  | none => True
  | some id => id < m.size

/-- A place in a module is a place in every greater one. -/
theorem HasPlace.mono {m n : Module} {parent : Option Nat} (h : m.HasPlace parent)
    (hsize : m.size ≤ n.size) : n.HasPlace parent := by
  cases parent with
  | none => trivial
  | some id => exact Nat.lt_of_lt_of_le h hsize

@[simp]
theorem size_adopt (m : Module) (parent : Option Nat) (ids : List Nat) :
    (m.adopt parent ids).size = m.size := by
  cases parent <;> simp [adopt, size, modify]

@[simp]
theorem size_extend (m : Module) (decls : List TypeDecl) :
    (m.extend decls).size = m.size + decls.length := by
  simp [extend, size]

@[simp]
theorem adopt_nil (m : Module) (parent : Option Nat) : m.adopt parent [] = m := by
  cases parent with
  | none => simp [adopt]
  | some id =>
    simp only [adopt, modify]
    congr 1
    apply Array.toList_inj.1
    rw [Array.toList_modify]
    exact (congrArg (m.types.toList.modify id) (funext fun decl => by simp)).trans
      (List.modify_id id m.types.toList)

@[simp]
theorem extend_nil (m : Module) : m.extend [] = m := by
  simp [extend]

theorem adopt_adopt (m : Module) (parent : Option Nat) (ids more : List Nat) :
    (m.adopt parent ids).adopt parent more = m.adopt parent (ids ++ more) := by
  cases parent with
  | none => simp [adopt]
  | some id =>
    simp only [adopt, modify]
    congr 1
    apply Array.toList_inj.1
    rw [Array.toList_modify, Array.toList_modify, Array.toList_modify, List.modify_modify_eq]
    congr 1
    funext decl
    simp

theorem extend_extend (m : Module) (decls more : List TypeDecl) :
    (m.extend decls).extend more = m.extend (decls ++ more) := by
  simp [extend]

/-- Types that are not concerned may be added before or after the adoption. -/
theorem adopt_extend {m : Module} {parent : Option Nat} (h : m.HasPlace parent)
    (decls : List TypeDecl) (ids : List Nat) :
    (m.extend decls).adopt parent ids = (m.adopt parent ids).extend decls := by
  cases parent with
  | none => rfl
  | some id =>
    replace h : id < m.types.size := h
    simp only [adopt, extend, modify]
    congr 1
    apply Array.ext_getElem?
    intro i
    grind

/-- What the last type adopts. -/
theorem adopt_extend_self (m : Module) (decl : TypeDecl) (parent : Option Nat)
    (ids more : List Nat) :
    (m.extend [decl.linked parent ids]).adopt (some m.size) more =
      m.extend [decl.linked parent (ids ++ more)] := by
  simp only [adopt, extend, modify, size]
  congr 1
  apply Array.ext_getElem?
  intro i
  grind [TypeDecl.linked]

/-- Attaching a type is making room for it above and putting it behind the others. -/
theorem attach_eq {m : Module} {parent : Option Nat} (h : m.HasPlace parent) (decl : TypeDecl) :
    m.attach parent decl = (m.adopt parent [m.size]).extend [decl.linked parent []] := by
  cases parent with
  | none => simp [attach, addRoot, adopt, extend, TypeDecl.linked, nextId, size]
  | some id =>
    replace h : id < m.types.size := h
    simp [attach, addNested?, h, adopt, extend, modify, TypeDecl.linked, nextId, size]

@[simp]
theorem size_attach {m : Module} {parent : Option Nat} (h : m.HasPlace parent) (decl : TypeDecl) :
    (m.attach parent decl).size = m.size + 1 := by
  simp [attach_eq h]

/-- The module with some trees attached in `parent`. -/
def graft (m : Module) (parent : Option Nat) (trees : List (Tree TypeDecl)) : Module :=
  (m.adopt parent (rootNumbers m.size trees)).extend (arena parent m.size trees)

@[simp]
theorem graft_nil (m : Module) (parent : Option Nat) : m.graft parent [] = m := by
  simp [graft]

@[simp]
theorem size_graft (m : Module) (parent : Option Nat) (trees : List (Tree TypeDecl)) :
    (m.graft parent trees).size = m.size + count trees := by
  simp [graft]

/-- Attaching a node, then its children under it and then the trees behind it. -/
theorem graft_node_cons {m : Module} {parent : Option Nat} (h : m.HasPlace parent)
    (decl : TypeDecl) (children rest : List (Tree TypeDecl)) :
    ((m.attach parent decl).graft (some m.size) children).graft parent rest =
      m.graft parent (.node decl children :: rest) := by
  -- the node and what is under it stand where the arena of the tree has them
  have hroot : (m.attach parent decl).graft (some m.size) children =
      (m.adopt parent [m.size]).extend
        (decl.linked parent (rootNumbers (m.size + 1) children) ::
          arena (some m.size) (m.size + 1) children) := by
    have hself := adopt_extend_self (m.adopt parent [m.size]) decl parent []
    rw [size_adopt] at hself
    rw [attach_eq h, graft, size_extend, size_adopt, List.length_singleton, hself,
      extend_extend]
    rfl
  have hplace : (m.adopt parent [m.size]).HasPlace parent := h.mono (by simp)
  rw [hroot, graft, size_extend, size_adopt, adopt_extend hplace, adopt_adopt, extend_extend]
  have hnext : m.size + (count children + 1) = m.size + 1 + count children := by omega
  simp only [graft, Tree.rootNumbers_node_cons, arena_node_cons, List.length_cons, length_arena,
    List.cons_append, List.nil_append, hnext]

/-- Attaching the nodes of some trees succeeds if each of them has a declaration, and then grafts
the trees of these declarations. -/
theorem attachTrees_eq_ok_iff {α ε : Type} {declare : α → Except ε TypeDecl}
    {trees : List (Tree α)} {m n : Module} {parent : Option Nat} (h : m.HasPlace parent) :
    attachTree.attachTrees declare parent trees m = .ok n ↔
      ∃ decls, traverseAll declare trees = .ok decls ∧ n = m.graft parent decls := by
  induction trees using forest_induction generalizing parent m n with
  | nil => simp [attachTree.attachTrees, eq_comm]
  | cons value children rest ihc ihr =>
    have hunder (decl : TypeDecl) : (m.attach parent decl).HasPlace (some m.size) := by
      simp [HasPlace, size_attach h]
    have hbehind (decl : TypeDecl) (cs : List (Tree TypeDecl)) :
        ((m.attach parent decl).graft (some m.size) cs).HasPlace parent :=
      h.mono (by rw [size_graft, size_attach h]; omega)
    -- first the node, then the nodes below it, then the trees behind it
    rw [attachTree.attachTrees, attachTree]
    constructor
    · intro hn
      simp only [bind_eq_ok_iff, nextId] at hn
      obtain ⟨m₁, ⟨decl, hd, hm₁⟩, hn⟩ := hn
      obtain ⟨cs, hc, rfl⟩ := (ihc (hunder decl)).1 hm₁
      obtain ⟨ts, ht, rfl⟩ := (ihr (hbehind decl cs)).1 hn
      exact ⟨_, traverseAll_node_cons_eq_ok_iff.2 ⟨decl, cs, ts, hd, hc, ht, rfl⟩,
        graft_node_cons h decl cs ts⟩
    · rintro ⟨decls, hdecls, rfl⟩
      obtain ⟨decl, cs, ts, hd, hc, ht, rfl⟩ := traverseAll_node_cons_eq_ok_iff.1 hdecls
      simp only [bind_eq_ok_iff, nextId]
      exact ⟨_, ⟨decl, hd, (ihc (hunder decl)).2 ⟨cs, hc, rfl⟩⟩,
        (ihr (hbehind decl cs)).2 ⟨ts, ht, (graft_node_cons h decl cs ts).symm⟩⟩

/-- Attaching some trees adds as many types as they have nodes. -/
theorem size_attachTrees {α ε : Type} {declare : α → Except ε TypeDecl} {trees : List (Tree α)}
    {m n : Module} {parent : Option Nat} (h : m.HasPlace parent)
    (hn : attachTree.attachTrees declare parent trees m = .ok n) :
    n.size = m.size + count trees := by
  obtain ⟨decls, hdecls, rfl⟩ := (attachTrees_eq_ok_iff h).1 hn
  have hlength := congrArg List.length (Tree.preorderAll_traverse hdecls)
  rw [List.length_map, List.length_map] at hlength
  rw [size_graft, count, count, hlength]

/-- The module that comes of attaching trees to an empty one is the module of the trees. -/
theorem attachTrees_empty_eq_ok_iff {α ε : Type} {declare : α → Except ε TypeDecl}
    {trees : List (Tree α)} {name : String} {n : Module} :
    attachTree.attachTrees declare none trees (empty name) = .ok n ↔
      ∃ decls, traverseAll declare trees = .ok decls ∧ n = ofTrees name decls := by
  have hgraft (decls : List (Tree TypeDecl)) :
      (empty name).graft none decls = ofTrees name decls := by
    simp [graft, adopt, extend, empty, ofTrees, size]
  have hplace : (empty name).HasPlace none := trivial
  simp only [attachTrees_eq_ok_iff hplace, hgraft]

/-! ### Reading the trees off again -/

/-- The types of `trees` stand in the module from the number `first` on, their roots being nested
in `parent`. -/
def Holds (m : Module) (parent : Option Nat) (first : Nat) (trees : List (Tree TypeDecl)) : Prop :=
  ∃ before behind, before.length = first ∧
    m.types.toList = before ++ arena parent first trees ++ behind

/-- The module of some trees holds them. -/
theorem holds_ofTrees (name : String) (trees : List (Tree TypeDecl)) :
    (ofTrees name trees).Holds none 0 trees :=
  ⟨[], [], rfl, by simp [ofTrees]⟩

section Holds

variable {m : Module} {parent : Option Nat} {first : Nat} {decl : TypeDecl}
  {children rest : List (Tree TypeDecl)}

/-- The number of a first node is that of its type. -/
theorem Holds.get?_node (h : m.Holds parent first (.node decl children :: rest)) :
    m.get? first = some (decl.linked parent (rootNumbers (first + 1) children)) := by
  obtain ⟨before, behind, rfl, h⟩ := h
  rw [get?, ← Array.getElem?_toList, h]
  simp

/-- The children of a first node are nested in it. -/
theorem Holds.below (h : m.Holds parent first (.node decl children :: rest)) :
    m.Holds (some first) (first + 1) children := by
  obtain ⟨before, behind, rfl, h⟩ := h
  refine ⟨before ++ [decl.linked parent (rootNumbers (before.length + 1) children)],
    arena parent (before.length + 1 + count children) rest ++ behind, by simp, ?_⟩
  rw [h]
  simp

/-- The trees behind a first one follow it. -/
theorem Holds.behind (h : m.Holds parent first (.node decl children :: rest)) :
    m.Holds parent (first + 1 + count children) rest := by
  obtain ⟨before, behind, rfl, h⟩ := h
  refine ⟨before ++ decl.linked parent (rootNumbers (before.length + 1) children) ::
    arena (some before.length) (before.length + 1) children, behind, ?_, ?_⟩
  · simp
    omega
  · rw [h]
    simp

/-- There is room for all nodes. -/
theorem Holds.count_le {trees : List (Tree TypeDecl)} (h : m.Holds parent first trees) :
    first + count trees ≤ m.size := by
  obtain ⟨before, behind, rfl, h⟩ := h
  rw [size, ← Array.length_toList, h]
  simp

end Holds

/-- Listing some trees from their roots gives their numbers in order. -/
theorem flattenStack_rootNumbers {m : Module} {parent : Option Nat} {first : Nat}
    {trees : List (Tree TypeDecl)} (h : m.Holds parent first trees) (limit : Nat)
    (stack : List Nat) :
    m.flattenStack (count trees + limit) (rootNumbers first trees ++ stack) =
      List.range' first (count trees) ++ m.flattenStack limit stack := by
  induction trees using forest_induction generalizing parent first limit stack with
  | nil => simp
  | cons decl children rest ihc ihr =>
    -- the root goes to the list, and its children to the stack before the other trees
    have hlimit : count (.node decl children :: rest) + limit =
        (count children + (count rest + limit)) + 1 := by
      rw [Tree.count_node_cons]
      omega
    have hrange : List.range' first (count (.node decl children :: rest)) =
        first :: (List.range' (first + 1) (count children) ++
          List.range' (first + 1 + count children) (count rest)) := by
      rw [Tree.count_node_cons, Nat.add_assoc, Nat.add_comm 1, List.range'_succ,
        List.range'_append_1]
    rw [hlimit, hrange, Tree.rootNumbers_node_cons, List.cons_append, flattenStack, h.get?_node]
    simp only [TypeDecl.linked]
    rw [ihc h.below, ihr h.behind, List.cons_append, List.append_assoc]

/-- The types of a module of trees are listed in the order of their ids. -/
theorem flatten_ofTrees (name : String) (trees : List (Tree TypeDecl)) :
    (ofTrees name trees).flatten = List.range (count trees) := by
  have hstack := flattenStack_rootNumbers (holds_ofTrees name trees) 0 []
  rw [flatten, size_ofTrees, List.range_eq_range']
  simpa [ofTrees, flattenStack] using hstack

/-- The list of types is the same in a module that brings along its file. -/
theorem flatten_withImage (m : Module) (image : Bytes) : (m.withImage image).flatten = m.flatten := by
  -- the stack is worked off by the links alone, and these are the same
  have hstack (limit : Nat) (stack : List Nat) :
      (m.withImage image).flattenStack limit stack = m.flattenStack limit stack := by
    induction limit generalizing stack with
    | zero => rfl
    | succ limit ih =>
      cases stack with
      | nil => rfl
      | cons id stack =>
        have hget : (m.withImage image).get? id = m.get? id := rfl
        simp only [flattenStack, hget, ih]
  exact hstack m.size m.roots.toList

/-- The subtree of an id whose nested types come behind it: no link is left out. -/
theorem subtree_eq {m : Module} {id : Nat} {decl : TypeDecl} (h : m.get? id = some decl)
    (hnested : ∀ child ∈ decl.nested.toList, id < child ∧ child < m.size) :
    m.subtree id = .node id (decl.nested.toList.map m.subtree) := by
  have hin : m.nestedIn id = decl.nested.toList := by
    simp [nestedIn, h]
  rw [subtree, hin]
  congr 1
  rw [List.filterMap_congr (g := fun child => some (m.subtree child.val))
    fun child hchild => by
      have := hnested child.val child.property
      simp [this.1, this.2]]
  simp

/-- The trees of the roots of some trees are these trees, each node with its type. -/
theorem map_subtree_rootNumbers {α : Type} {m : Module} {parent : Option Nat} {first : Nat}
    {trees : List (Tree TypeDecl)} (h : m.Holds parent first trees) (label : Nat → α)
    (content : TypeDecl → α)
    (hlabel : ∀ id decl parent nested, m.get? id = some (decl.linked parent nested) →
      label id = content decl) :
    ((rootNumbers first trees).map m.subtree).map (Tree.map label) =
      trees.map (Tree.map content) := by
  induction trees using forest_induction generalizing parent first with
  | nil => simp
  | cons decl children rest ihc ihr =>
    -- the children of the node have greater numbers, so that the tree of each is complete
    have hsub : m.subtree first =
        .node first ((rootNumbers (first + 1) children).map m.subtree) := by
      refine subtree_eq h.get?_node fun child hchild => ?_
      have hle := Tree.le_of_mem_rootNumbers (List.mem_toArray.1 (Array.mem_def.2 hchild))
      have hroom := h.below.count_le
      omega
    rw [Tree.rootNumbers_node_cons, List.map_cons, List.map_cons, ihr h.behind, hsub,
      Tree.map_node, Tree.mapAll_eq, ihc h.below, hlabel _ _ _ _ h.get?_node]
    simp [Tree.map_node, Tree.mapAll_eq]

/-- The nesting in a module of trees is that of the trees. -/
theorem forest_ofTrees {α : Type} (name : String) (trees : List (Tree TypeDecl))
    (label : Nat → α) (content : TypeDecl → α)
    (hlabel : ∀ id decl parent nested,
      (ofTrees name trees).get? id = some (decl.linked parent nested) → label id = content decl) :
    (ofTrees name trees).forest.map (Tree.map label) = trees.map (Tree.map content) :=
  map_subtree_rootNumbers (holds_ofTrees name trees) label content hlabel

/-! ### Editing all types alike -/

/-- The module with every type replaced. -/
def mapTypes (f : TypeDecl → TypeDecl) (m : Module) : Module :=
  { m with types := m.types.map f }

/-- An edit that leaves the links alone is an edit of the trees. -/
theorem map_arena {edit : Bool → TypeDecl → TypeDecl}
    (hedit : ∀ nested decl parent ids,
      edit nested (decl.linked parent ids) = (edit nested decl).linked parent ids)
    (parent : Option Nat) (first : Nat) (trees : List (Tree TypeDecl)) :
    (arena parent first trees).map (fun decl => edit decl.isNested decl) =
      arena parent first (mapNestedAll edit parent.isSome trees) := by
  induction trees using forest_induction generalizing parent first with
  | nil => simp
  | cons decl children rest ihc ihr =>
    have hnested (ids : List Nat) : (decl.linked parent ids).isNested = parent.isSome := rfl
    simp [hnested, hedit, ihc, ihr]

/-- What is made of the types with regard to their nesting is made of the nodes. -/
theorem map_arena_nested {α : Type} {content : Bool → TypeDecl → α}
    (hcontent : ∀ nested decl parent ids,
      content nested (decl.linked parent ids) = content nested decl)
    (parent : Option Nat) (first : Nat) (trees : List (Tree TypeDecl)) :
    (arena parent first trees).map (fun decl => content decl.isNested decl) =
      preorderAll (mapNestedAll content parent.isSome trees) := by
  induction trees using forest_induction generalizing parent first with
  | nil => simp
  | cons decl children rest ihc ihr =>
    have hnested (ids : List Nat) : (decl.linked parent ids).isNested = parent.isSome := rfl
    simp [hnested, hcontent, ihc, ihr]

/-- Editing all types of a module of trees is editing the trees. -/
theorem mapTypes_ofTrees {edit : Bool → TypeDecl → TypeDecl}
    (hedit : ∀ nested decl parent ids,
      edit nested (decl.linked parent ids) = (edit nested decl).linked parent ids)
    (name : String) (trees : List (Tree TypeDecl)) :
    (ofTrees name trees).mapTypes (fun decl => edit decl.isNested decl) =
      ofTrees name (mapNestedAll edit false trees) := by
  have htypes := map_arena hedit none 0 trees
  simp only [Option.isSome_none] at htypes
  simp [mapTypes, ofTrees, htypes]

end Module

end PublicAssembly
