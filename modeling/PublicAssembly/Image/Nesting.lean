import PublicAssembly.Image.Basic
import PublicAssembly.Module.Tree

/-!
# Nesting of types

One table says which type row is nested in which. A type has at most one enclosing type, and no
chain of enclosing types may lead back to where it started; then the rows form trees.
-/

namespace PublicAssembly.Image

open Metadata (Table)

/-- The enclosing type of each type row, if any; place 0 stays empty. -/
abbrev Enclosing := Array (Option Nat)

/-- Take in `count` nesting rows from `row` on. -/
def readEnclosing (image : Image) : (count row : Nat) → Enclosing → Except Fault Enclosing
  | 0, _, found => .ok found
  | count + 1, row, found => do
    let types := image.rows Table.typeDef
    let nested ← image.cell Table.nestedClass row 0
    let outer ← image.cell Table.nestedClass row 1
    if nested = 0 ∨ types < nested ∨ outer = 0 ∨ types < outer then
      throw (.malformed (.badNesting row nested outer))
    if (found.getD nested none).isSome then
      throw (.malformed (.nestedTwice nested))
    readEnclosing image count (row + 1) (found.setIfInBounds nested (some outer))

/-- The enclosing type of every type row. -/
def enclosing (image : Image) : Except Fault Enclosing :=
  readEnclosing image (image.rows Table.nestedClass) 1
    (Array.replicate (image.rows Table.typeDef + 1) none)

namespace Enclosing

/-- The type rows, in order. -/
def typeRows (enclosing : Enclosing) : List Nat :=
  List.range' 1 (enclosing.size - 1)

/-- The type rows that are nested in no other, in order. -/
def tops (enclosing : Enclosing) : List Nat :=
  enclosing.typeRows.filter fun row => (enclosing.getD row none).isNone

/-- The type rows that are nested in each type row, in order; place 0 stays empty. -/
def nestedRows (enclosing : Enclosing) : Array (List Nat) :=
  enclosing.typeRows.foldr (fun row groups =>
    match enclosing.getD row none with
    | some outer => groups.modify outer (row :: ·)
    | none => groups) (Array.replicate enclosing.size [])

end Enclosing

/-- The tree of a row with the rows below it, at most `depth` levels of them. -/
def growTree (below : Array (List Nat)) : (depth row : Nat) → Tree Nat
  | 0, row => .node row []
  | depth + 1, row => .node row ((below.getD row []).map (growTree below depth))

/-- The trees of the type rows that lead up to a row nested in no other. A chain of nested types has
no more members than there are types. -/
def Enclosing.forest (enclosing : Enclosing) : List (Tree Nat) :=
  enclosing.tops.map (growTree enclosing.nestedRows enclosing.size)

end PublicAssembly.Image
