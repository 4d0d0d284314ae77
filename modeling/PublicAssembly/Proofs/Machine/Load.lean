import PublicAssembly.Proofs.Image.Loading
import PublicAssembly.Proofs.Machine.Types

/-!
# Loading a module on a machine

The types are attached in the order of a stack: the type on top is attached, and the types nested in
it are put on the stack in its place. Taken off the stack like this, the rows of some trees attach
these trees (`attachPending_eq`). Every row of the trees is a type row and stands in them once, so
its runs of members are found, the type around it is there already, and no more types are counted
than there are.
-/

namespace PublicAssembly.Machine

open Image (Fault RowRange Accessors Membership Enclosing)
open Metadata (Table)
open PublicAssembly.Tree (preorderAll count)

/-! ### Nesting -/

/-- Take in `count` nesting rows from `row` on. -/
def readEnclosing (image : Image) : (count row : Nat) → Enclosing → Checked Enclosing
  | 0, _, found => .ok found
  | count + 1, row, found => do
    let types := image.rows Table.typeDef
    let nested ← cell image.metadata Table.nestedClass row 0
    let outer ← cell image.metadata Table.nestedClass row 1
    if nested = 0 ∨ types < nested ∨ outer = 0 ∨ types < outer then
      throw (.fault (.malformed (.badNesting row nested outer)))
    if (found.getD nested none).isSome then
      throw (.fault (.malformed (.nestedTwice nested)))
    readEnclosing image count (row + 1) (found.setIfInBounds nested (some outer))

theorem readEnclosing_eq {image : Image} (hfits : ImageFits image) (count row : Nat)
    (found : Enclosing) :
    readEnclosing image count row found = lift (image.readEnclosing count row found) := by
  induction count generalizing row found with
  | zero => rfl
  | succ count ih =>
    rw [readEnclosing, Image.readEnclosing, cell_eq hfits, cell_eq hfits]
    refine bind_eq_lift rfl fun nested _ => bind_eq_lift rfl fun outer _ => ?_
    exact ite_eq_lift (fun _ => rfl) fun _ => ite_eq_lift (fun _ => rfl) fun _ => ih _ _

/-! ### Attaching types -/

/-- Attach the type of a row at the top or under a type of the module, and say which id it has. -/
def attach (m : Module) (parent : Option Nat) (decl : TypeDecl) (row : Nat) :
    Checked (Module × Nat) :=
  let id := m.nextId % 2 ^ 32
  match parent with
  | none => .ok (m.addRoot decl, id)
  | some parent =>
    if m.types.size ≤ parent then .error (.lapse (.lostParent row))
    else do
      let types := m.types.push { decl with parent := some parent, nested := #[] }
      let outer ← index types parent
      let types ← put types parent { outer with nested := outer.nested.push id }
      return ({ m with types }, id)

/-- Attach the types of a stack, in so many rounds, and count them. -/
def attachPending (image : Image) (members : Membership) (accessors : Array Accessors)
    (below : Array (List Nat)) :
    (rounds : Nat) → List (Option Nat × Nat) → Module → (loaded : Nat) → Checked (Module × Nat)
  | 0, _, _, _ => .error .endless
  | _ + 1, [], m, loaded => .ok (m, loaded)
  | rounds + 1, (parent, row) :: pending, m, loaded => do
    let place ← sub row 1
    let fields ← index members.fields place
    let methods ← index members.methods place
    let decl ← typeDecl image members accessors fields methods row
    let (m, id) ← attach m parent decl row
    let loaded ← add 32 loaded 1
    attachPending image members accessors below rounds
      -- the types nested in this one come before those that wait
      ((below.getD row []).map (some id, ·) ++ pending) m loaded

section Attaching

theorem attach_eq {m : Module} (hsize : m.size < 2 ^ 32) {parent : Option Nat}
    (hplace : m.HasPlace parent) (decl : TypeDecl) (row : Nat) :
    attach m parent decl row = .ok (m.attach parent decl, m.size) := by
  have hid : m.nextId % 2 ^ 32 = m.size := Nat.mod_eq_of_lt hsize
  cases parent with
  | none => rw [attach, hid, Module.attach]
  | some parent =>
    replace hplace : parent < m.types.size := hplace
    have hitem : (m.types.push { decl with parent := some parent, nested := #[] })[parent]? =
        some m.types[parent] := by
      rw [Array.getElem?_push_lt hplace]
    rw [attach, hid, if_neg (Nat.not_le.2 hplace)]
    dsimp only
    rw [index_eq hitem, Reading.ok_bind, put_eq (by rw [Array.size_push]; omega), Reading.ok_bind,
      Module.attach, Module.addNested?, if_pos hplace]
    dsimp only [Option.getD_some, pure, Except.pure]
    congr 3
    -- the type is put behind the others before or after the type around it is changed
    apply Array.ext_getElem?
    intro i
    grind [Module.nextId, Module.size]

variable {image : Image} {members : Membership} {below : Array (List Nat)}

theorem getElem?_fields {row : Nat} (hpos : row ≠ 0) (hle : row ≤ members.fields.size) :
    members.fields[row - 1]? = some (members.fieldRange row) := by
  rw [Membership.fieldRange, if_neg hpos, Array.getD_eq_getD_getElem?,
    Array.getElem?_eq_getElem (by omega), Option.getD_some]

theorem getElem?_methods {row : Nat} (hpos : row ≠ 0) (hle : row ≤ members.methods.size) :
    members.methods[row - 1]? = some (members.methodRange row) := by
  rw [Membership.methodRange, if_neg hpos, Array.getD_eq_getD_getElem?,
    Array.getElem?_eq_getElem (by omega), Option.getD_some]

/-- The rows of some trees on top of a stack attach the trees, before the rest of the stack is
attached. -/
theorem attachPending_eq (hfits : ImageFits image)
    (hfields : members.fields.size = image.rows Table.typeDef)
    (hmethods : members.methods.size = image.rows Table.typeDef)
    (accessors : Array Accessors) {parentOf : Nat → Option Nat}
    {trees : List (Tree Nat)} {parentRow : Option Nat}
    (hfollows : Tree.Follows parentOf (fun row => below.getD row []) parentRow trees)
    (hrows : ∀ row ∈ preorderAll trees, row ≠ 0 ∧ row ≤ image.rows Table.typeDef)
    (rounds : Nat) (parent : Option Nat) (pending : List (Option Nat × Nat)) (m : Module)
    (hplace : m.HasPlace parent) (hsize : m.size + count trees < 2 ^ 32) :
    attachPending image members accessors below (rounds + count trees)
        (trees.map (fun tree => (parent, tree.value)) ++ pending) m m.size =
      lift (Module.attachTree.attachTrees (image.typeDecl members accessors) parent trees m) >>=
        fun n => attachPending image members accessors below rounds pending n n.size := by
  -- along the trees: a type is attached, then the types nested in it, then those behind it
  induction hfollows generalizing rounds parent pending m with
  | nil => rfl
  | @cons parentRow row children rest hparent hnested hchildren hrest ihc ihr =>
    obtain ⟨hpos, hle⟩ := hrows row (by simp)
    have hchildRows : ∀ row ∈ preorderAll children, row ≠ 0 ∧ row ≤ image.rows Table.typeDef :=
      fun row hrow => hrows row (by simp [hrow])
    have hrestRows : ∀ row ∈ preorderAll rest, row ≠ 0 ∧ row ≤ image.rows Table.typeDef :=
      fun row hrow => hrows row (by simp [hrow])
    have hfield := getElem?_fields hpos (hfields ▸ hle)
    have hmethod := getElem?_methods hpos (hmethods ▸ hle)
    rw [Tree.count_node_cons] at hsize ⊢
    have hrounds : rounds + (1 + count children + count rest) =
        rounds + count rest + count children + 1 := by omega
    rw [hrounds, List.map_cons, List.cons_append, attachPending, Tree.value, sub_eq (by omega),
      Reading.ok_bind, index_eq hfield, Reading.ok_bind, index_eq hmethod, Reading.ok_bind,
      typeDecl_eq hfits, Module.attachTree.attachTrees, Module.attachTree, lift_bind, lift_bind,
      bind_assoc]
    rcases image.typeDecl members accessors row with _ | decl
    · rfl
    rw [lift_ok, Reading.ok_bind, Reading.ok_bind, attach_eq (by omega) hplace, Reading.ok_bind]
    dsimp only
    have hnext := Module.size_attach hplace decl
    have hinner : (m.attach parent decl).HasPlace (some m.size) := by
      rw [Module.HasPlace, hnext]
      exact Nat.lt_succ_self _
    have hstack : (below.getD row []).map (some m.size, ·) =
        children.map fun tree => (some m.size, tree.value) := by
      rw [hnested, List.map_map]
      rfl
    rw [add_eq (by omega), Reading.ok_bind, hstack, ← hnext,
      ihc hchildRows (rounds + count rest) (some m.size) _ _ hinner (by omega)]
    -- the children are attached now, and the rows behind the type are on top of the stack
    have hid : m.nextId = m.size := rfl
    rw [hid]
    rcases hattach : Module.attachTree.attachTrees (image.typeDecl members accessors) (some m.size)
      children (m.attach parent decl) with _ | n
    · rfl
    have hn := Module.size_attachTrees hinner hattach
    rw [lift_ok, Reading.ok_bind, Reading.ok_bind]
    exact ihr hrestRows rounds parent pending n (hplace.mono (by omega)) (by omega)

end Attaching

/-! ### The module of an image -/

/-- The name of the module, empty if the image does not give one. -/
def moduleName (image : Image) : Checked String :=
  if 0 < image.rows Table.module then cellString image.metadata Table.module 1 1 else .ok ""

/-- The types of an image whose members are known. -/
def loadTypes (image : Image) (name : String) (members : Membership)
    (accessors : Array Accessors) : Checked Module := do
  let types := image.rows Table.typeDef
  let enclosing ← readEnclosing image (image.rows Table.nestedClass) 1
    (Array.replicate (types + 1) none)
  let (m, loaded) ← attachPending image members accessors enclosing.nestedRows (types + 1)
    (enclosing.tops.map (none, ·)) (Module.empty name) 0
  if loaded ≠ types then
    let caught ← sub types loaded
    throw (.fault (.malformed (.nestingCycle caught types)))
  return m.withImage image.data

/-- The module that a file holds. -/
def load (data : Bytes) : Checked Module := do
  let image ← readImage data
  let name ← moduleName image
  let fields ← listRanges image Table.typeDef 4 Table.field
  let methods ← listRanges image Table.typeDef 5 Table.methodDef
  let owners ← methodOwners image methods
  let events ← assignedRows image Table.eventMap Table.event
  let properties ← assignedRows image Table.propertyMap Table.property
  let types := image.rows Table.typeDef
  let members : Membership := {
    fields := fields.toArray
    methods := methods.toArray
    events := Image.groupByOwner types events
    properties := Image.groupByOwner types properties
    propertyOwners := Image.ownersOf (image.rows Table.property) properties
    semantics := [] }
  let accessors ← readAccessors image members owners
    (List.range' 1 (image.rows Table.methodSemantics))
    (Array.replicate members.propertyOwners.size .empty)
  loadTypes image name members accessors

section Loading

variable {image : Image} {members : Membership}

/-- The trees of the type rows hold type rows alone, and no more of them than there are. -/
theorem count_forest_le {enclosing : Enclosing} (h : image.enclosing = .ok enclosing) :
    count enclosing.forest ≤ image.rows Table.typeDef ∧
      ∀ row ∈ preorderAll enclosing.forest, row ≠ 0 ∧ row ≤ image.rows Table.typeDef := by
  obtain ⟨hnodup, hsubset⟩ := enclosing.nodup_preorderAll_forest
  have hsize := (Image.enclosing_spec h).1
  constructor
  · -- rows without repetition, each of which is a type row
    have hle := (List.subperm_of_subset hnodup hsubset).length_le
    rw [Enclosing.typeRows, List.length_range'] at hle
    rw [count]
    omega
  · intro row hrow
    have hmem := hsubset row hrow
    rw [Enclosing.typeRows, List.mem_range'_1] at hmem
    omega

/-- The rows that associate methods with properties are not looked at again when the types are
attached. -/
theorem loadTypes_eq (hfits : ImageFits image) (name : String)
    (hfields : members.fields.size = image.rows Table.typeDef)
    (hmethods : members.methods.size = image.rows Table.typeDef)
    (semantics : List Image.SemanticsRow) :
    loadTypes image name members ({ members with semantics } : Membership).accessors =
      lift (image.loadTypes name { members with semantics }) := by
  have htypes := rows_lt hfits Table.typeDef
  rw [loadTypes, Image.loadTypes, readEnclosing_eq hfits]
  refine bind_eq_lift rfl fun enclosing henclosing => ?_
  obtain ⟨hcount, hrows⟩ := count_forest_le henclosing
  have hfollows := Enclosing.unfolds_forest (Image.enclosing_spec henclosing).2.2
  -- the stack begins with the trees of the forest, and there are rounds enough for all their nodes
  have hstack : enclosing.tops.map (fun row => ((none : Option Nat), row)) =
      enclosing.forest.map (fun tree => (none, tree.value)) ++ [] := by
    rw [List.append_nil, Enclosing.forest, List.map_map]
    exact List.map_congr_left fun row _ => by rw [Function.comp_apply, Enclosing.value_growTree]
  have hrounds : image.rows Table.typeDef + 1 =
      image.rows Table.typeDef - count enclosing.forest + 1 + count enclosing.forest := by omega
  have hplace : (Module.empty name).HasPlace none := trivial
  have hattach := attachPending_eq hfits hfields hmethods
    ({ members with semantics } : Membership).accessors
    hfollows hrows (image.rows Table.typeDef - count enclosing.forest + 1) none []
    (Module.empty name) hplace (by rw [Module.size_empty]; omega)
  rw [← hstack, ← hrounds, Module.size_empty] at hattach
  rw [hattach, bind_assoc]
  refine bind_eq_lift rfl fun m hm => ?_
  have hsize := Module.size_attachTrees hplace hm
  rw [Module.size_empty] at hsize
  rw [attachPending, Reading.ok_bind]
  dsimp only
  rw [sub_eq (by omega)]
  exact ite_eq_lift (fun _ => rfl) fun _ => rfl

theorem moduleName_eq (hfits : ImageFits image) : moduleName image = lift image.moduleName := by
  rw [moduleName, Image.moduleName]
  exact ite_eq_lift (fun _ => cellString_eq hfits _ _ _) fun _ => rfl

theorem load_eq {data : Bytes} (hdata : data.size < 2 ^ 32) :
    load data = lift (Image.load data) := by
  rw [load, Image.load, Image.survey, readImage_eq hdata, bind_assoc]
  refine bind_eq_lift rfl fun image himage => ?_
  have hfits := imageFits hdata himage
  rw [moduleName_eq hfits, bind_assoc]
  refine bind_eq_lift rfl fun name _ => ?_
  rw [Image.membership, bind_assoc, bind_assoc, listRanges_eq hfits, listRanges_eq hfits]
  refine bind_eq_lift rfl fun fields hfields => ?_
  rw [bind_assoc]
  refine bind_eq_lift rfl fun methods hmethods => ?_
  -- the table of owners takes the place of the search through the runs
  obtain ⟨owners, hread, howners⟩ := methodOwners_spec hfits hmethods
  rw [hread, Reading.ok_bind, assignedRows_eq hfits, assignedRows_eq hfits, bind_assoc]
  refine bind_eq_lift rfl fun events _ => ?_
  rw [bind_assoc]
  refine bind_eq_lift rfl fun properties _ => ?_
  dsimp only
  have hrows : (List.range' 1 (image.rows Table.methodSemantics)).mapM (semanticsAt image) =
      image.semanticsRows := rfl
  rw [readAccessors_eq hfits _ _ (by simpa using howners), hrows, lift_bind, bind_assoc, bind_assoc]
  refine bind_eq_lift rfl fun semantics _ => ?_
  refine loadTypes_eq hfits name ?_ ?_ semantics
  · rw [List.size_toArray, (Image.listRanges_spec hfields).1]
  · rw [List.size_toArray, (Image.listRanges_spec hmethods).1]

end Loading

end PublicAssembly.Machine
