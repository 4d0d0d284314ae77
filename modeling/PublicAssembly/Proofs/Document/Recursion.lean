import PublicAssembly.Document.Module
import PublicAssembly.Proofs.Module.Listing

/-!
# Documents and modules by recursion over trees

The types of a document wait on a stack until they are attached, and the types of a module are taken
from a table until only those at the top are left. Both are recursion over trees: what lies on the
stack for some trees attaches these trees (`attachPending_push`). A type takes the trees nested in it
when they are complete (`nestAt_complete`), so working through some trees in reverse pre-order leaves
each complete at the id of its root (`foldl_nestAt`).

## Main definitions

* `Document.entryOf`: the entry of the type of an id.

## Main statements

* `toModule_eq`: the module of a document is made by attaching its trees, and no type loses its
  parent;
* `ofModule_eq`: the document of a module that is a forest has the trees of that module.
-/

namespace PublicAssembly.Document

open Reading
open PublicAssembly.Tree (preorderAll traverseAll)

/-! ### The stack -/

section Stack

variable {m : Module} {parent : Option Nat}

/-- A type is attached if its place is there. -/
theorem attachType_eq (hplace : m.HasPlace parent) (decl : TypeDecl) :
    attachType m decl parent = .ok (m.attach parent decl) := by
  cases parent with
  | none => rfl
  | some parent =>
    replace hplace : parent < m.types.size := hplace
    rw [attachType, Module.attach, Module.addNested?, if_pos hplace]
    rfl

/-- The types that were put on a stack attach their trees, before the rest of the stack is
attached. -/
theorem attachPending_push (hplace : m.HasPlace parent) (types : List (Tree TypeEntry))
    (pending : Pending) :
    attachPending (push parent types pending) m =
      (Module.attachTree.attachTrees TypeEntry.toDecl parent types m).mapError .accessor >>=
        attachPending pending := by
  -- along the trees: a type is attached, then the types nested in it, then those behind it
  induction types using Tree.forest_induction generalizing m parent pending with
  | nil =>
    rw [Module.attachTree.attachTrees, push_eq]
    rfl
  | cons entry nested rest ihn ihr =>
    have hstack : push parent (.node entry nested :: rest) pending =
        (parent, .node entry nested) :: push parent rest pending := by
      rw [push_eq, push_eq, List.map_cons, List.cons_append]
    rw [hstack, attachPending, Module.attachTree.attachTrees, Module.attachTree]
    cases hdecl : entry.toDecl with
    | error unknown => rfl
    | ok decl =>
      have hnested : (m.attach parent decl).HasPlace (some m.nextId) := by
        rw [Module.HasPlace, Module.size_attach hplace]
        exact Nat.lt_succ_self _
      rw [ok_bind, ok_mapError, ok_bind, attachType_eq hplace, ok_bind, ihn hnested]
      cases hbelow : Module.attachTree.attachTrees TypeEntry.toDecl (some m.nextId) nested
          (m.attach parent decl) with
      | error unknown => rfl
      | ok n =>
        -- the place of the types behind is still there
        have hsize := Module.size_attachTrees hnested hbelow
        rw [Module.size_attach hplace] at hsize
        rw [ok_bind, ok_mapError, ok_bind, ihr (hplace.mono (by omega))]

end Stack

variable {document : Document} {m : Module}

/-- The module of a document is made by attaching its trees, and no type loses its parent. -/
theorem toModule_eq (document : Document) :
    document.toModule =
      (Module.attachTree.attachTrees TypeEntry.toDecl none document.types
        (Module.empty document.name)).mapError .accessor := by
  have hplace : (Module.empty document.name).HasPlace none := trivial
  rw [toModule, attachPending_push hplace]
  cases Module.attachTree.attachTrees TypeEntry.toDecl none document.types
      (Module.empty document.name) with
  | error unknown => rfl
  | ok m => rw [ok_mapError, ok_bind, attachPending]

/-- The module of a document is that of the trees of what its types are declared as. -/
theorem toModule_eq_ok_iff :
    document.toModule = .ok m ↔ ∃ decls, traverseAll TypeEntry.toDecl document.types = .ok decls ∧
      m = .ofTrees document.name decls := by
  rw [toModule_eq, mapError_eq_ok_iff, Module.attachTrees_empty_eq_ok_iff]

/-! ### The table -/

/-- The entry of the type of an id; an unknown id has an entry without content. -/
def entryOf (m : Module) (id : Nat) : TypeEntry :=
  match m.get? id with
  | some decl => .ofDecl decl
  | none => { name := "", visibility := .notPublic }

/-- The trees that stand at the ids of their roots are taken from there, and nothing else is. -/
theorem takeAll_roots {label : Nat → TypeEntry} {table : TypeTable} {trees : List (Tree Nat)}
    (hnodup : (trees.map Tree.value).Nodup)
    (htrees : ∀ tree ∈ trees, table[tree.value]? = some (some (tree.map label))) :
    (takeAll table (trees.map Tree.value)).1 = trees.map (Tree.map label) ∧
      ∀ id ∉ trees.map Tree.value,
        (takeAll table (trees.map Tree.value)).2[id]? = table[id]? := by
  induction trees generalizing table with
  | nil => exact ⟨rfl, fun _ _ => rfl⟩
  | cons tree rest ih =>
    obtain ⟨hnew, hrest⟩ := List.nodup_cons.1 hnodup
    have htree := htrees tree List.mem_cons_self
    have hkept : ∀ other ∈ rest,
        (table.setIfInBounds tree.value none)[other.value]? = some (some (other.map label)) := by
      intro other hother
      have hne : tree.value ≠ other.value := fun heq => hnew (heq ▸ List.mem_map_of_mem hother)
      rw [Array.getElem?_setIfInBounds_ne hne]
      exact htrees other (List.mem_cons_of_mem _ hother)
    obtain ⟨htaken, hleft⟩ := ih hrest hkept
    rw [List.map_cons, takeAll_cons]
    refine ⟨?_, fun id hid => ?_⟩
    · rw [htaken, Array.getD_eq_getD_getElem?, htree]
      rfl
    · obtain ⟨hne, hid⟩ := not_or.1 (mt List.mem_cons.2 hid)
      rw [hleft id hid, Array.getElem?_setIfInBounds_ne (Ne.symm hne)]

/-- A type that stands alone in the table takes the trees nested in it, if they are complete, and
nothing else in the table changes. -/
theorem nestAt_complete {root : Nat} {children : List (Tree Nat)} (hid : root < m.types.size)
    (hnested : m.nestedIn root = children.map Tree.value)
    (hnodup : (children.map Tree.value).Nodup) (hout : root ∉ children.map Tree.value)
    {table : TypeTable} (hroot : table[root]? = some (some (.node (entryOf m root) [])))
    (hchildren : ∀ child ∈ children,
      table[child.value]? = some (some (child.map (entryOf m)))) :
    (nestAt m table root)[root]? =
        some (some (.node (entryOf m root) (children.map (Tree.map (entryOf m))))) ∧
      ∀ id ∉ children.map Tree.value, id ≠ root → (nestAt m table root)[id]? = table[id]? := by
  obtain ⟨htaken, hleft⟩ := takeAll_roots hnodup hchildren
  have hget : m.get? root = some m.types[root] := Array.getElem?_eq_getElem hid
  rw [Module.nestedIn, hget] at hnested
  rw [nestAt, hget]
  dsimp only at hnested ⊢
  rw [hnested, htaken]
  refine ⟨?_, fun id hmem hne => ?_⟩
  · rw [Array.getElem?_modify, if_pos rfl, hleft root hout, hroot]
    rfl
  · rw [Array.getElem?_modify, if_neg hne.symm, hleft id hmem]

/-- Working through some trees of a module in reverse pre-order, where every type stands alone in the
table, leaves each tree at the id of its root, and changes nothing at other ids. -/
theorem foldl_nestAt {parent : Option Nat} {trees : List (Tree Nat)} (h : m.Shows parent trees)
    (hnodup : (preorderAll trees).Nodup) {table : TypeTable}
    (htable : ∀ id ∈ preorderAll trees, table[id]? = some (some (.node (entryOf m id) []))) :
    (∀ tree ∈ trees, ((preorderAll trees).reverse.foldl (nestAt m) table)[tree.value]? =
        some (some (tree.map (entryOf m)))) ∧
      ∀ id ∉ preorderAll trees,
        ((preorderAll trees).reverse.foldl (nestAt m) table)[id]? = table[id]? := by
  induction h generalizing table with
  | nil => exact ⟨nofun, fun _ _ => by simp⟩
  | @cons parent root children rest hid hparent hnested hchildren hrest ihc ihr =>
    rw [Tree.preorderAll_cons, Tree.preorder_node, List.cons_append] at hnodup htable ⊢
    obtain ⟨hroot, hnodup⟩ := List.nodup_cons.1 hnodup
    obtain ⟨hnodupChildren, hnodupRest, hapart⟩ := List.nodup_append.1 hnodup
    rw [List.mem_append, not_or] at hroot
    have hvalues := Tree.map_value_sublist children
    -- first come the trees behind the first one, then those below its root, and then the root
    rw [List.reverse_cons, List.reverse_append, List.foldl_append, List.foldl_append,
      List.foldl_cons, List.foldl_nil]
    obtain ⟨hbehind, houter⟩ := ihr hnodupRest fun id hmem => htable id (by simp [hmem])
    generalize (preorderAll rest).reverse.foldl (nestAt m) table = behind at hbehind houter ⊢
    have hkeeps (id : Nat) (hmem : id ∈ preorderAll children) :
        behind[id]? = some (some (.node (entryOf m id) [])) := by
      rw [houter id fun hother => hapart id hmem id hother rfl]
      exact htable id (by simp [hmem])
    obtain ⟨hbelow, hbeside⟩ := ihc hnodupChildren hkeeps
    generalize (preorderAll children).reverse.foldl (nestAt m) behind = below at hbelow hbeside ⊢
    have halone : below[root]? = some (some (.node (entryOf m root) [])) := by
      rw [hbeside root hroot.1, houter root hroot.2]
      exact htable root List.mem_cons_self
    obtain ⟨hnow, hleft⟩ := nestAt_complete hid hnested (hvalues.nodup hnodupChildren)
      (mt hvalues.mem hroot.1) halone hbelow
    have hkept (id : Nat) (hne : id ≠ root) (hchildren : id ∉ preorderAll children) :
        (nestAt m below root)[id]? = behind[id]? := by
      rw [hleft id (mt hvalues.mem hchildren) hne, hbeside id hchildren]
    refine ⟨fun tree htree => ?_, fun id hmem => ?_⟩
    · rcases List.mem_cons.1 htree with rfl | htree
      · rw [Tree.value, hnow, Tree.map_node, Tree.mapAll_eq]
      · have hmem := Tree.value_mem_preorderAll htree
        rw [hkept tree.value (fun heq => hroot.2 (heq ▸ hmem))
          (fun hother => hapart _ hother _ hmem rfl), hbehind tree htree]
    · rw [List.mem_cons, List.mem_append, not_or, not_or] at hmem
      rw [hkept id hmem.1 hmem.2.1, houter id hmem.2.2]

/-- The document of a module that is a forest has the trees of that module, each type with its
entry. -/
theorem ofModule_eq (hm : m.IsForest) :
    ofModule m = ⟨m.name, m.forest.map (Tree.map (entryOf m))⟩ := by
  have hlist : m.flatten = preorderAll m.forest := hm.flatten_eq
  have hroots : m.roots.toList = m.forest.map Tree.value := by
    rw [Module.forest, Module.map_value_subtree]
  have hnodup : (m.forest.map Tree.value).Nodup := hroots ▸ hm.nodup_typesAt none
  -- at first every type stands alone in the table
  have htable (id : Nat) (hid : id ∈ preorderAll m.forest) :
      (m.types.map fun decl => some (Tree.node (TypeEntry.ofDecl decl) []))[id]? =
        some (some (.node (entryOf m id) [])) := by
    have hlt : id < m.types.size := hm.shows_forest.lt_size id hid
    have hget : m.get? id = some m.types[id] := Array.getElem?_eq_getElem hlt
    rw [Array.getElem?_map, entryOf, hget, Array.getElem?_eq_getElem hlt]
    rfl
  obtain ⟨htrees, -⟩ := foldl_nestAt hm.shows_forest hm.nodup_listing htable
  rw [ofModule, hlist, hroots, (takeAll_roots hnodup htrees).1]

/-- The document of the module of some trees has these trees. -/
theorem ofModule_ofTrees (name : String) (decls : List (Tree TypeDecl)) :
    ofModule (.ofTrees name decls) = ⟨name, decls.map (Tree.map TypeEntry.ofDecl)⟩ := by
  rw [ofModule_eq (Module.reachable_ofTrees name decls).isForest,
    Module.forest_ofTrees name decls _ TypeEntry.ofDecl]
  · rfl
  · intro id decl parent nested hget
    rw [entryOf, hget]
    rfl

end PublicAssembly.Document
