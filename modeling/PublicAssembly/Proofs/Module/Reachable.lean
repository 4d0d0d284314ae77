import PublicAssembly.Module.Forest
import PublicAssembly.Proofs.Module.Arena

/-!
# Modules that are built type by type

A module says three times which type is nested in which: by the parents, by the lists of nested
types, and by the list of the types at the top. Types are only ever attached behind those that are
there, and an edit of a type leaves its links alone, so the three always agree, whatever links the
attached values brought along.

## Main definitions

* `Module.Reachable`: the module was built by attaching types and editing them;
* `Module.IsForest`: the links of the module are those of a forest.

## Main statements

* `IsForest.attach`, `IsForest.editMembers`: what one step leaves of the links;
* `Reachable.links`: the links of every module that is built agree, and a type with an unknown
  parent is not attached.
-/

namespace PublicAssembly.Module

/-! ### Links -/

/-- The type that the type of an id is nested in. -/
def parentOf? (m : Module) (id : Nat) : Option Nat :=
  (m.get? id).bind TypeDecl.parent

/-- The types at a place, in order: those at the top, or those nested in a type. -/
def typesAt (m : Module) : Option Nat → List Nat
  | none => m.roots.toList
  | some parent => m.nestedIn parent

/-- The links of the module are those of a forest. -/
structure IsForest (m : Module) : Prop where
  /-- The types at a place are those whose parent says so, each once and in the order in which they
  were attached. -/
  typesAt_eq : ∀ place,
    m.typesAt place = (List.range m.size).filter fun id => m.parentOf? id = place
  /-- A type was attached before the types nested in it. -/
  parent_lt : ∀ {id parent}, m.parentOf? id = some parent → parent < id

/-- Change what a type says of itself and its members; its links stay. -/
def editMembers (m : Module) (id : Nat) (edit : TypeDecl → TypeDecl) : Module :=
  m.modify id fun decl => (edit decl).linked decl.parent decl.nested.toList

/-- The modules that are built from an empty one: by attaching types, which may bring along any
links, by editing types that are there, and by bringing along a file. -/
inductive Reachable : Module → Prop where
  /-- A module without types. -/
  | empty (name : String) : Reachable (.empty name)
  /-- A type is attached at the top or under a parent, which may be unknown. -/
  | attach {m : Module} (parent : Option Nat) (decl : TypeDecl) (h : Reachable m) :
    Reachable (m.attach parent decl)
  /-- A type is edited, but for its links. -/
  | editMembers {m : Module} (id : Nat) (edit : TypeDecl → TypeDecl) (h : Reachable m) :
    Reachable (m.editMembers id edit)
  /-- The module brings along the file it was read from. -/
  | withImage {m : Module} (image : Bytes) (h : Reachable m) : Reachable (m.withImage image)

variable {m : Module} {parent place : Option Nat} {decl : TypeDecl}

/-- A type with a parent is a type of the module. -/
theorem lt_size_of_parentOf? {id outer : Nat} (h : m.parentOf? id = some outer) : id < m.size := by
  obtain ⟨decl, hdecl, -⟩ := Option.bind_eq_some_iff.1 h
  exact (Array.getElem?_eq_some_iff.1 hdecl).1

namespace IsForest

/-- The types at a place are the types of the module with that place as their parent. -/
theorem mem_typesAt (h : m.IsForest) {id : Nat} :
    id ∈ m.typesAt place ↔ id < m.size ∧ m.parentOf? id = place := by
  simp [h.typesAt_eq]

/-- The types nested in a type are the types of the module with that type as their parent. -/
theorem mem_nestedIn (h : m.IsForest) {id outer : Nat} :
    id ∈ m.nestedIn outer ↔ id < m.size ∧ m.parentOf? id = some outer :=
  show id ∈ m.typesAt (some outer) ↔ _ from h.mem_typesAt

/-- No type is listed twice at a place. -/
theorem nodup_typesAt (h : m.IsForest) (place : Option Nat) : (m.typesAt place).Nodup := by
  rw [h.typesAt_eq]
  exact List.nodup_range.filter _

/-- A type is listed once among the types nested in its parent, and nowhere else. -/
theorem count_nestedIn (h : m.IsForest) (parent child : Nat) :
    (m.nestedIn parent).count child = if m.parentOf? child = some parent then 1 else 0 := by
  have hcount := (h.nodup_typesAt (some parent)).count (a := child)
  simp only [h.mem_typesAt, and_iff_right_of_imp lt_size_of_parentOf?] at hcount
  exact hcount

end IsForest

/-! ### Attaching a type -/

/-- The types after one more was attached: the new one is the last, and its parent knows it. -/
theorem get?_attach (h : m.HasPlace parent) (decl : TypeDecl) (id : Nat) :
    (m.attach parent decl).get? id =
      if id = m.size then some (decl.linked parent [])
      else (m.get? id).map fun other =>
        if parent = some id then { other with nested := other.nested.push m.size } else other := by
  cases parent with
  | none => simp [attach, addRoot, get?, size, Array.getElem?_push, TypeDecl.linked]
  | some outer =>
    replace h : outer < m.types.size := h
    simp only [attach, addNested?, h, if_true, Option.getD_some, get?, size, nextId,
      Array.getElem?_push, Array.size_modify, Array.getElem?_modify, TypeDecl.linked,
      Option.some.injEq]
    split
    · rfl
    · split <;> simp

/-- The new type has the parent that it was attached under, and all others keep theirs. -/
theorem parentOf?_attach (h : m.HasPlace parent) (decl : TypeDecl) (id : Nat) :
    (m.attach parent decl).parentOf? id = if id = m.size then parent else m.parentOf? id := by
  rw [parentOf?, get?_attach h]
  split
  · rfl
  · rw [parentOf?, Option.bind_map]
    congr 1
    funext other
    simp only [Function.comp_apply]
    split <;> rfl

/-- The new type is the last one at its place, and no other place changes. -/
theorem typesAt_attach (h : m.HasPlace parent) (decl : TypeDecl) (place : Option Nat) :
    (m.attach parent decl).typesAt place =
      m.typesAt place ++ if parent = place then [m.size] else [] := by
  cases place with
  | none =>
    cases parent with
    | none => simp [typesAt, attach, addRoot, nextId, size]
    | some outer =>
      replace h : outer < m.types.size := h
      simp [typesAt, attach, addNested?, h]
  | some outer =>
    rw [typesAt, typesAt, nestedIn, get?_attach h, nestedIn]
    rcases Nat.lt_or_ge outer m.size with hold | hnew
    · have hget : m.get? outer = some m.types[outer] := Array.getElem?_eq_getElem hold
      rw [if_neg (Nat.ne_of_lt hold), hget]
      by_cases hparent : parent = some outer <;> simp [hparent]
    · -- nothing is attached under a type that is not there yet
      have hget : m.get? outer = none := Array.getElem?_eq_none hnew
      have hparent : parent ≠ some outer := by
        rintro rfl
        exact Nat.not_lt_of_le hnew h
      rw [hget, if_neg hparent]
      by_cases hlast : outer = m.size
      · rw [if_pos hlast]
        rfl
      · rw [if_neg hlast]
        rfl

/-- Attaching a type leaves a forest. -/
theorem IsForest.attach_of_hasPlace (hm : m.IsForest) (h : m.HasPlace parent) (decl : TypeDecl) :
    (m.attach parent decl).IsForest where
  typesAt_eq place := by
    -- the new type has the last id, so that it comes behind those that were there
    have hold : (List.range m.size).filter (fun id => (m.attach parent decl).parentOf? id = place) =
        (List.range m.size).filter fun id => m.parentOf? id = place := by
      refine List.filter_congr fun id hid => ?_
      rw [parentOf?_attach h, if_neg (Nat.ne_of_lt (List.mem_range.1 hid))]
    have hnew : (m.attach parent decl).parentOf? m.size = parent := by
      rw [parentOf?_attach h, if_pos rfl]
    rw [typesAt_attach h, size_attach h, List.range_succ, List.filter_append, hold,
      hm.typesAt_eq]
    simp [List.filter_singleton, hnew]
  parent_lt {id outer} hparent := by
    rw [parentOf?_attach h] at hparent
    split at hparent
    · next hid =>
      subst hparent
      rw [hid]
      exact h
    · exact hm.parent_lt hparent

/-- A type with an unknown parent is not attached, and the module stays as it is. -/
theorem attach_unknown {outer : Nat} (h : m.size ≤ outer) (decl : TypeDecl) :
    m.addNested? outer decl = none ∧ m.attach (some outer) decl = m := by
  have hnone : m.addNested? outer decl = none := addNested?_eq_none_iff.2 h
  exact ⟨hnone, by rw [attach, hnone, Option.getD_none]⟩

/-- Attaching a type leaves a forest, whether the parent is known or not. -/
theorem IsForest.attach (hm : m.IsForest) (parent : Option Nat) (decl : TypeDecl) :
    (m.attach parent decl).IsForest := by
  cases parent with
  | none => exact hm.attach_of_hasPlace (show m.HasPlace none from trivial) decl
  | some outer =>
    rcases Nat.lt_or_ge outer m.size with hknown | hunknown
    · exact hm.attach_of_hasPlace (show m.HasPlace (some outer) from hknown) decl
    · rwa [(attach_unknown hunknown decl).2]

/-! ### Editing a type -/

/-- The types after the members of one were edited: its links are as they were. -/
theorem get?_editMembers (m : Module) (id : Nat) (edit : TypeDecl → TypeDecl) (other : Nat) :
    (m.editMembers id edit).get? other = (m.get? other).map fun decl =>
      if id = other then (edit decl).linked decl.parent decl.nested.toList else decl := by
  rw [editMembers, modify, get?, Array.getElem?_modify]
  split <;> simp [get?]

/-- Editing the members of a type leaves a forest. -/
theorem IsForest.editMembers (hm : m.IsForest) (id : Nat) (edit : TypeDecl → TypeDecl) :
    (m.editMembers id edit).IsForest := by
  -- an edit leaves the links of a type, and these are all that makes a forest
  have hparent (other : Nat) : (m.editMembers id edit).parentOf? other = m.parentOf? other := by
    rw [parentOf?, parentOf?, get?_editMembers]
    cases m.get? other with
    | none => rfl
    | some decl => by_cases heq : id = other <;> simp [heq, TypeDecl.linked]
  have htypes (place : Option Nat) : (m.editMembers id edit).typesAt place = m.typesAt place := by
    cases place with
    | none => rfl
    | some outer =>
      rw [typesAt, typesAt, nestedIn, nestedIn, get?_editMembers]
      cases m.get? outer with
      | none => rfl
      | some decl => by_cases heq : id = outer <;> simp [heq, TypeDecl.linked]
  have hsize : (m.editMembers id edit).size = m.size := Array.size_modify
  refine ⟨fun place => ?_, fun h => hm.parent_lt (hparent _ ▸ h)⟩
  simp only [htypes, hparent, hsize]
  exact hm.typesAt_eq place

/-! ### All modules that are built -/

/-- An empty module is a forest. -/
theorem isForest_empty (name : String) : (empty name).IsForest := by
  refine ⟨fun place => ?_, fun h => absurd (lt_size_of_parentOf? h) (Nat.not_lt_zero _)⟩
  cases place <;> rfl

/-- Every module that is built is a forest. -/
theorem Reachable.isForest (h : m.Reachable) : m.IsForest := by
  induction h with
  | empty name => exact isForest_empty name
  | attach parent decl _ ih => exact ih.attach parent decl
  | editMembers id edit _ ih => exact ih.editMembers id edit
  | withImage image _ ih => exact ⟨ih.typesAt_eq, ih.parent_lt⟩

/-- Attaching the nodes of some trees builds a module. -/
theorem Reachable.attachTrees {α ε : Type} {declare : α → Except ε TypeDecl}
    {trees : List (Tree α)} {m n : Module} {parent : Option Nat} (h : m.Reachable)
    (hn : attachTree.attachTrees declare parent trees m = .ok n) : n.Reachable := by
  induction trees using Tree.forest_induction generalizing parent m n with
  | nil =>
    cases hn
    exact h
  | cons value children rest ihc ihr =>
    rw [attachTree.attachTrees, attachTree] at hn
    simp only [Reading.bind_eq_ok_iff] at hn
    obtain ⟨between, ⟨decl, -, hbetween⟩, hn⟩ := hn
    exact ihr (ihc (h.attach parent decl) hbetween) hn

/-- The module of some trees is built by attaching them. -/
theorem reachable_ofTrees (name : String) (trees : List (Tree TypeDecl)) :
    (ofTrees name trees).Reachable := by
  have hread : Tree.traverseAll (.ok : TypeDecl → Except Empty TypeDecl) trees = .ok trees :=
    Tree.traverseAll_ok trees
  exact (Reachable.empty name).attachTrees (attachTrees_empty_eq_ok_iff.2 ⟨trees, hread, rfl⟩)

/-- The links of every module that is built agree, and its ids are in range: the types at the top
are those without a parent, in the order in which they were attached; a type is nested in its
parent, once, and in no other type; a parent was attached first. Under an unknown parent nothing is
attached. -/
theorem Reachable.links (h : m.Reachable) :
    m.roots.toList = (List.range m.size).filter (fun id => m.parentOf? id = none) ∧
      (∀ parent child,
        (m.nestedIn parent).count child = if m.parentOf? child = some parent then 1 else 0) ∧
      (∀ parent child, m.parentOf? child = some parent → parent < child) ∧
      (∀ place, ∀ id ∈ m.typesAt place, id < m.size) ∧
      ∀ parent decl, m.size ≤ parent →
        m.addNested? parent decl = none ∧ m.attach (some parent) decl = m :=
  have hm := h.isForest
  ⟨hm.typesAt_eq none, hm.count_nestedIn, fun _ _ => hm.parent_lt,
    fun _ _ hid => (hm.mem_typesAt.1 hid).1, fun _ decl hparent => attach_unknown hparent decl⟩

/-- A type with two methods of one name. Its property names the second of them, and a method that is
not there; its links are those of another module. -/
def sampleDecl (name : String) : TypeDecl where
  token := some 0x02000003
  name
  visibility := .notPublic
  methods := [{ name := "get", access := .privateMember, returnType := "int32" },
    { token := some 0x06000002, name := "get", access := .privateMember }]
  properties := [⟨"Value", some 1, some 2⟩]
  parent := some 4
  nested := #[0, 5]

/-- Three types, of which the last is nested in the first. -/
def sampleModule : Module :=
  (((empty "Sample").attach none (sampleDecl "Outer")).attach none (sampleDecl "Other")).attach
    (some 0) (sampleDecl "Inner")

/-- The sample is built type by type. -/
theorem reachable_sampleModule : sampleModule.Reachable :=
  .attach _ _ (.attach _ _ (.attach _ _ (.empty "Sample")))

/-- The links that the types of the sample brought along are gone. -/
theorem Reachable.links_sampleModule :
    sampleModule.Reachable ∧ sampleModule.size ≤ 4 ∧ sampleModule.roots.toList = [0, 1] ∧
      (sampleModule.nestedIn 0).count 2 = 1 ∧ (sampleModule.nestedIn 0).count 5 = 0 ∧
      sampleModule.attach (some 4) (sampleDecl "Lost") = sampleModule := by
  obtain ⟨hroots, hnested, -, -, hunknown⟩ := reachable_sampleModule.links
  refine ⟨reachable_sampleModule, by decide, ?_, ?_, ?_, (hunknown 4 _ (by decide)).2⟩
  · rw [hroots]
    decide
  · rw [hnested]
    decide
  · rw [hnested]
    decide

end PublicAssembly.Module
