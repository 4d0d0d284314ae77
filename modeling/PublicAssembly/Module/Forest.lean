import PublicAssembly.Module.Basic
import PublicAssembly.Module.Tree

/-!
# The forest of a module

The nesting of the types of a module as trees, and the listing that visits every type once, each
before the types nested in it.

`flatten` works off a stack; `listing` is the same order said by recursion. Recursion over the
arena ends because a nested type always has a greater id than the type around it.
-/

namespace PublicAssembly.Module

/-- The types that are nested in the type of an id. -/
def nestedIn (m : Module) (id : Nat) : List Nat :=
  match m.get? id with
  | some decl => decl.nested.toList
  | none => []

/-- List the types of a stack, the first on top, with the types nested in each, at most `limit`
in all. Unknown ids are left out. -/
def flattenStack (m : Module) : (limit : Nat) → List Nat → List Nat
  | 0, _ => []
  | _, [] => []
  | limit + 1, id :: stack =>
    match m.get? id with
    | none => flattenStack m limit stack
    | some decl => id :: flattenStack m limit (decl.nested.toList ++ stack)

/-- Every type of the module once, each before the types nested in it, and types beside each other
in the order in which they were attached. -/
def flatten (m : Module) : List Nat :=
  m.flattenStack m.size m.roots.toList

/-- The tree of a type with the types nested in it. -/
def subtree (m : Module) (id : Nat) : Tree Nat :=
  .node id ((m.nestedIn id).attach.filterMap fun child =>
    if _h : id < child.val ∧ child.val < m.size then some (m.subtree child.val) else none)
termination_by m.size - id
decreasing_by omega

/-- The trees of the types at the top. -/
def forest (m : Module) : List (Tree Nat) :=
  m.roots.toList.map m.subtree

/-- The types in the order of the trees, each before the types nested in it. -/
def listing (m : Module) : List Nat :=
  Tree.preorderAll m.forest

/-- Attach the nodes of a tree, each under the one above it, the root under `parent`. A node that
has no declaration ends the work. -/
def attachTree {α ε : Type} (declare : α → Except ε TypeDecl) (parent : Option Nat) :
    Tree α → Module → Except ε Module
  | .node value children, m => do
    let decl ← declare value
    attachTrees declare (some m.nextId) children (m.attach parent decl)
where
  /-- Attach the nodes of some trees, tree after tree. -/
  attachTrees {α ε : Type} (declare : α → Except ε TypeDecl) (parent : Option Nat) :
      List (Tree α) → Module → Except ε Module
    | [], m => .ok m
    | tree :: rest, m => do
      let m ← attachTree declare parent tree m
      attachTrees declare parent rest m

end PublicAssembly.Module
