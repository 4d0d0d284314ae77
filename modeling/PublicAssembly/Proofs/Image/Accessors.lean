import PublicAssembly.Proofs.Image.Ownership

/-!
# The accessors of a property

A row that associates a method with a property makes it an accessor of the property if the method is
one of the type that the property belongs to. Of several such rows the last one counts, and rows that
make nothing an accessor count for nothing. The accessor is kept as the place of the method among the
methods of the type, so it always leads to a method.

## Main definitions

* `Image.Associates`: a row makes a method an accessor of a property of a type;
* `Image.IsAccessor`: the accessor that these rows give a property;
* `Image.Counts`: a row makes some method an accessor of some property;
* `Image.KeepsAccessors`: what there is to say about the accessors of a loaded module.

## Main statements

* `Membership.getD_accessors`: of the rows that give an accessor the last one counts;
* `Membership.accessors_filter_counting`: rows that do not count may be left out;
* `Loads.keepsAccessors`: the accessors of every loaded module;
* `load_accessors`: the same, said of what is loaded, and which rows have no effect.
-/

namespace PublicAssembly.Image

open Metadata (Table CodedIndex)
open Reading
open PublicAssembly.Tree (preorderAll)

/-- The word says that a method reads a property. -/
def readsProperty (semantics : Nat) : Bool :=
  semantics.testBit 1

/-- The word says that a method writes a property, and not that it reads one. -/
def writesProperty (semantics : Nat) : Bool :=
  semantics.testBit 0 && !semantics.testBit 1

/-- The row `n` associates the property in a row with the method in another row, its word passes a
test, and the method is listed for the type. -/
def Associates (image : Image) (test : Nat → Bool) (type property n method : Nat) : Prop :=
  ∃ semantics, image.cell Table.methodSemantics n 0 = .ok semantics ∧ test semantics = true ∧
    image.cell Table.methodSemantics n 1 = .ok method ∧
    image.cell Table.methodSemantics n 2 = .ok (2 * property + 1) ∧
    method ∈ (image.listedRange Table.typeDef 5 Table.methodDef type).rows

/-- The accessor of the property in a row of a type with the given methods: there is one if some row
associates a method with the property, and then it is the place of the method of the last such row. -/
structure IsAccessor (image : Image) (test : Nat → Bool) (type property : Nat)
    (methods : List MethodDecl) (accessor : Option Nat) : Prop where
  /-- There is an accessor if some row gives one. -/
  isSome_iff : accessor.isSome = true ↔
    ∃ n method, image.Associates test type property n method
  /-- The accessor is the place of the method of the last row that gives one. -/
  last : ∀ place, accessor = some place → ∃ n method decl,
    image.Associates test type property n method ∧
    (∀ n' method', image.Associates test type property n' method' → n' ≤ n) ∧
    (image.listedRange Table.typeDef 5 Table.methodDef type).rows[place]? = some method ∧
    methods[place]? = some decl ∧ image.IsMethod method decl

/-- The row `n` makes some method an accessor of some property. A row about an event, about a property
that no map row lists or with a method that the type of the property does not list makes none. -/
def Counts (image : Image) (n : Nat) : Prop :=
  ∃ type property method,
    property ∈ image.mappedRows Table.propertyMap Table.property type ∧
      (image.Associates readsProperty type property n method ∨
        image.Associates writesProperty type property n method)

/-- The accessors of the properties of a module are those that the rows of an image give, `rows` naming
the row of each id. -/
structure KeepsAccessors (image : Image) (m : Module) (rows : List Nat) : Prop where
  /-- The properties of a type are those that its map rows list, with the accessors of the rows. -/
  properties : ∀ id type decl, rows[id]? = some type → m.get? id = some decl →
    List.Forall₂
      (fun row property => image.cellString Table.property row 1 = .ok property.name ∧
        image.IsAccessor readsProperty type row decl.methods property.getter ∧
        image.IsAccessor writesProperty type row decl.methods property.setter)
      (image.mappedRows Table.propertyMap Table.property type) decl.properties
  /-- Accessors are places of methods. -/
  lt_length : ∀ id decl, m.get? id = some decl → ∀ property ∈ decl.properties, ∀ place,
    property.getter = some place ∨ property.setter = some place → place < decl.methods.length

/-- What is read of a row that associates a method with an event or a property. -/
def semanticsAt (image : Image) (n : Nat) : SemanticsRow :=
  ⟨image.cellValue Table.methodSemantics n 0, image.cellValue Table.methodSemantics n 1,
    SemanticsRow.propertyOf (image.cellValue Table.methodSemantics n 2)⟩

/-- The members where only some of the rows that associate methods are known. -/
def keepingRows (image : Image) (keep : Nat → Bool) (members : Membership) : Membership :=
  { members with
    semantics := ((List.range' 1 (image.rows Table.methodSemantics)).filter keep).map
      image.semanticsAt }

/-! ### One row after another -/

namespace Membership

variable (members : Membership)

/-- The place of the method that a row makes an accessor of the property. -/
def accessorPlace? (property : Nat) (row : SemanticsRow) : Option Nat :=
  match members.owned? row with
  | some (found, owner) =>
    if found = property then (members.methodRange owner).place? row.method else none
  | none => none

/-- The same place, if the word of the row passes a test. -/
def placeIf? (test : Nat → Bool) (property : Nat) (row : SemanticsRow) : Option Nat :=
  if test row.semantics then members.accessorPlace? property row else none

variable {members} {property : Nat} {found : Array Accessors}

/-- Taking in a row keeps the number of properties. -/
theorem size_addAccessor (row : SemanticsRow) :
    (members.addAccessor found row).size = found.size := by
  rw [addAccessor]
  split
  · rfl
  · split
    · rfl
    · split
      · exact Array.size_modify ..
      · split
        · exact Array.size_modify ..
        · rfl

/-- What is known of a property after one of the properties was changed. -/
theorem getD_modify_accessors (hproperty : property < found.size) (edit : Accessors → Accessors)
    (other : Nat) : (found.modify other edit).getD property .empty =
      if other = property then edit (found.getD property .empty)
      else found.getD property .empty := by
  rw [Array.getD_eq_getD_getElem?, Array.getElem?_modify, Array.getD_eq_getD_getElem?,
    Array.getElem?_eq_getElem hproperty]
  split <;> rfl

/-- What is known of a property after a row was taken in. -/
theorem getD_addAccessor (hproperty : property < found.size) (row : SemanticsRow) :
    (members.addAccessor found row).getD property .empty =
      ⟨(members.placeIf? readsProperty property row).or (found.getD property .empty).getter,
        (members.placeIf? writesProperty property row).or (found.getD property .empty).setter⟩ := by
  have hget := getD_modify_accessors hproperty
  have htests : readsProperty row.semantics = row.isGetter ∧
      writesProperty row.semantics = row.isSetter := by
    refine ⟨rfl, ?_⟩
    rw [writesProperty, SemanticsRow.isSetter, SemanticsRow.isGetter, Bool.and_comm]
  rw [placeIf?, placeIf?, htests.1, htests.2, addAccessor, accessorPlace?]
  -- the cases are those of the definition: whose property, which method, what the word says
  cases howned : members.owned? row with
  | none => simp
  | some pair =>
    obtain ⟨other, owner⟩ := pair
    cases hplace : (members.methodRange owner).place? row.method with
    | none => simp [hplace]
    | some place =>
      by_cases hother : other = property
      · cases hgetter : row.isGetter with
        | true =>
          -- a row for a getter is none for a setter
          have hsetter : row.isSetter = false := by rw [SemanticsRow.isSetter, hgetter]; rfl
          simp only [hplace, hother, hsetter, hget, if_true, Bool.false_eq_true, if_false,
            Option.some_or, Option.none_or]
        | false =>
          cases hsetter : row.isSetter <;>
            simp only [hplace, hother, hget, if_true, Bool.false_eq_true, if_false, Option.some_or,
              Option.none_or]
      · -- a row for another property changes nothing for this one
        have hkept (edit : Accessors → Accessors) :
            (found.modify other edit).getD property .empty = found.getD property .empty := by
          rw [hget, if_neg hother]
        simp only [hplace, hother, if_false, ite_self, Option.none_or]
        cases row.isGetter with
        | true => exact hkept _
        | false =>
          cases row.isSetter with
          | true =>
            rw [if_neg Bool.false_ne_true, if_pos rfl]
            exact hkept _
          | false => rfl

/-- What is known of a property after some rows were taken in: the last row that gives an accessor
counts. -/
theorem getD_foldl_addAccessor (rows : List SemanticsRow) (hproperty : property < found.size) :
    (rows.foldl members.addAccessor found).getD property .empty =
      ⟨(rows.filterMap (members.placeIf? readsProperty property)).getLast?.or
          (found.getD property .empty).getter,
        (rows.filterMap (members.placeIf? writesProperty property)).getLast?.or
          (found.getD property .empty).setter⟩ := by
  -- what the first row gives is what there was before the others
  have hlast (test : Nat → Bool) (row : SemanticsRow) (rest : List SemanticsRow)
      (before : Option Nat) :
      ((row :: rest).filterMap (members.placeIf? test property)).getLast?.or before =
        (rest.filterMap (members.placeIf? test property)).getLast?.or
          ((members.placeIf? test property row).or before) := by
    cases hrow : members.placeIf? test property row with
    | none => rw [List.filterMap_cons_none hrow, Option.none_or]
    | some place =>
      rw [List.filterMap_cons_some hrow, List.getLast?_cons]
      cases (rest.filterMap (members.placeIf? test property)).getLast? <;> rfl
  -- the array changes from row to row, but the place of the property stays in it
  induction rows generalizing found with
  | nil => simp
  | cons row rest ih =>
    rw [List.foldl_cons, ih (by rwa [size_addAccessor]), getD_addAccessor hproperty, hlast, hlast]

/-- The accessors of a property row: the last row that gives one counts. -/
theorem getD_accessors (hproperty : property < members.propertyOwners.size) :
    members.accessors.getD property .empty =
      ⟨(members.semantics.filterMap (members.placeIf? readsProperty property)).getLast?,
        (members.semantics.filterMap (members.placeIf? writesProperty property)).getLast?⟩ := by
  have hsize : property < (Array.replicate members.propertyOwners.size Accessors.empty).size := by
    rwa [Array.size_replicate]
  -- before the first row no property has an accessor
  rw [accessors, getD_foldl_addAccessor members.semantics hsize, Array.getD_eq_getD_getElem?,
    Array.getElem?_eq_getElem hsize, Array.getElem_replicate]
  simp [Accessors.empty]

end Membership

/-! ### Properties and their types -/

section Owners

/-- Marking the rows of some members marks no other row. -/
theorem getD_foldl_setIfInBounds_of_ne {found : List OwnedRow} {row : Nat}
    (h : ∀ member ∈ found, member.row ≠ row) (owners : Array Nat) :
    (found.foldl (fun owners member => owners.setIfInBounds member.row member.owner) owners).getD
      row 0 = owners.getD row 0 := by
  induction found generalizing owners with
  | nil => rfl
  | cons member rest ih =>
    obtain ⟨hmember, hrest⟩ := List.forall_mem_cons.1 h
    rw [List.foldl_cons, ih hrest, Array.getD_eq_getD_getElem?, Array.getElem?_setIfInBounds_ne
      hmember, Array.getD_eq_getD_getElem?]

/-- Marking rows keeps their number. -/
theorem size_foldl_setIfInBounds (found : List OwnedRow) (owners : Array Nat) :
    (found.foldl (fun owners member =>
      owners.setIfInBounds member.row member.owner) owners).size = owners.size := by
  induction found generalizing owners with
  | nil => rfl
  | cons member rest ih => rw [List.foldl_cons, ih, Array.size_setIfInBounds]

/-- The type that a member row belongs to, when no row belongs to two. -/
theorem getD_ownersOf {found : List OwnedRow} (hnodup : (found.map OwnedRow.row).Nodup)
    {member : OwnedRow} (hmem : member ∈ found) {count : Nat} (hrow : member.row ≤ count) :
    (ownersOf count found).getD member.row 0 = member.owner := by
  -- the member splits the list, and its own mark is the last one at its row
  obtain ⟨before, behind, rfl⟩ := List.append_of_mem hmem
  have hbehind : ∀ other ∈ behind, other.row ≠ member.row := by
    intro other hother hsame
    rw [List.map_append, List.map_cons, List.nodup_append] at hnodup
    refine (List.nodup_cons.1 hnodup.2.1).1 ?_
    exact hsame ▸ List.mem_map_of_mem hother
  rw [ownersOf, List.foldl_append, List.foldl_cons, getD_foldl_setIfInBounds_of_ne hbehind,
    Array.getD_eq_getD_getElem?, Array.getElem?_setIfInBounds_self_of_lt, Option.getD_some]
  rw [size_foldl_setIfInBounds, Array.size_replicate]
  omega

/-- A row with a type was marked by a member, or had the type before. -/
theorem exists_of_getD_foldl_setIfInBounds (found : List OwnedRow) (row : Nat) (owners : Array Nat) :
    (∃ member ∈ found, member.row = row ∧ member.owner =
      (found.foldl (fun owners member => owners.setIfInBounds member.row member.owner) owners).getD
        row 0) ∨
    (found.foldl (fun owners member => owners.setIfInBounds member.row member.owner) owners).getD
      row 0 = owners.getD row 0 := by
  -- the last mark counts, so a mark of a later member is looked for first
  induction found generalizing owners with
  | nil => exact .inr rfl
  | cons member rest ih =>
    rw [List.foldl_cons]
    rcases ih (owners.setIfInBounds member.row member.owner) with ⟨other, hother, hsame⟩ | hkept
    · exact .inl ⟨other, List.mem_cons_of_mem _ hother, hsame⟩
    · rw [hkept, Array.getD_eq_getD_getElem?, Array.getElem?_setIfInBounds]
      by_cases hmark : member.row = row
      · by_cases hsize : row < owners.size
        · refine .inl ⟨member, List.mem_cons_self, hmark, ?_⟩
          rw [if_pos hmark, if_pos (hmark ▸ hsize)]
          rfl
        · -- a mark outside the array is no mark
          refine .inr ?_
          rw [if_pos hmark, if_neg (hmark ▸ hsize), Array.getD_eq_getD_getElem?,
            Array.getElem?_eq_none (Nat.le_of_not_lt hsize)]
      · refine .inr ?_
        rw [if_neg hmark, Array.getD_eq_getD_getElem?]

/-- A row that belongs to a type was assigned to it. -/
theorem exists_of_getD_ownersOf {count : Nat} {found : List OwnedRow} {row owner : Nat}
    (h : (ownersOf count found).getD row 0 = owner) (howner : owner ≠ 0) :
    ∃ member ∈ found, member.row = row ∧ member.owner = owner := by
  have hmarked := exists_of_getD_foldl_setIfInBounds found row (Array.replicate (count + 1) 0)
  rw [← ownersOf, h] at hmarked
  -- at first every row belongs to 0
  refine hmarked.resolve_right fun hzero => howner ?_
  rw [hzero, Array.getD_eq_getD_getElem?, Array.getElem?_replicate]
  split <;> rfl

end Owners

section Rows

variable {data : Bytes} {image : Image}

/-- The property that a value names: the lowest bit says that it is one, the others are its row. -/
theorem propertyOf_eq_some_iff {association property : Nat} :
    SemanticsRow.propertyOf association = some property ↔ association = 2 * property + 1 := by
  -- one bit tells the two tables apart
  have hdecode : CodedIndex.hasSemantics.decode association =
      if association % 2 = 0 then some (Table.event, association / 2)
      else some (Table.property, association / 2) := by
    rw [CodedIndex.decode]
    rcases Nat.mod_two_eq_zero_or_one association with hbit | hbit <;>
      simp [CodedIndex.tables, CodedIndex.tagBits, hbit, Nat.shiftRight_eq_div_pow]
  have htable : Table.event ≠ Table.property := by decide
  rw [SemanticsRow.propertyOf, hdecode]
  split
  · next found hfound =>
    split at hfound
    · obtain ⟨rfl, rfl⟩ := Prod.mk.inj (Option.some.inj hfound)
      rw [if_neg htable]
      constructor
      · intro h
        cases h
      · omega
    · obtain ⟨rfl, rfl⟩ := Prod.mk.inj (Option.some.inj hfound)
      rw [if_pos rfl, Option.some.injEq]
      omega
  · next hnone => split at hnone <;> cases hnone

/-- The place of a row in a run leads to the row. -/
theorem place?_eq_some_iff {range : RowRange} {row place : Nat} :
    range.place? row = some place ↔ range.rows[place]? = some row := by
  rw [RowRange.place?, RowRange.rows]
  -- the rows of the run are consecutive, so the row at a place is the first one plus the place
  by_cases hplace : place < range.stop - range.first
  · rw [List.getElem?_range' hplace]
    split
    · next hholds =>
      replace hholds : range.first ≤ row ∧ row < range.stop := hholds
      rw [Option.some.injEq, Option.some.injEq]
      omega
    · next hnot =>
      replace hnot : ¬ (range.first ≤ row ∧ row < range.stop) := hnot
      rw [Option.some.injEq]
      constructor
      · intro h
        cases h
      · omega
  · have hnone : (List.range' range.first (range.stop - range.first))[place]? = none := by
      rw [List.getElem?_eq_none_iff, List.length_range']
      omega
    rw [hnone]
    split
    · next hholds =>
      replace hholds : range.first ≤ row ∧ row < range.stop := hholds
      rw [Option.some.injEq]
      constructor
      · omega
      · intro h
        cases h
    · constructor <;> intro h <;> cases h

/-- Every cell of a row that associates a method can be read. -/
theorem cell_semantics (hread : Image.read data = .ok image) {n column : Nat}
    (hn : n ∈ List.range' 1 (image.rows Table.methodSemantics)) (hcolumn : column < 3) :
    image.cell Table.methodSemantics n column =
      .ok (image.cellValue Table.methodSemantics n column) := by
  have hbound := List.mem_range'_1.1 hn
  obtain ⟨value, hvalue⟩ := exists_cell hread (show Table.methodSemantics < Table.count by decide)
    (show column < (Metadata.columns Table.methodSemantics).length from hcolumn)
    (show n ≠ 0 by omega) (by omega)
  rw [hvalue, cellValue_of_cell hvalue]

/-- The rows that associate methods can always be read. -/
theorem semanticsRows_of_read (hread : Image.read data = .ok image) :
    image.semanticsRows =
      .ok ((List.range' 1 (image.rows Table.methodSemantics)).map image.semanticsAt) := by
  rw [semanticsRows, mapM_eq_ok_iff, List.map_map]
  refine List.map_congr_left fun n hn => ?_
  rw [cell_semantics hread hn (by decide), cell_semantics hread hn (by decide),
    cell_semantics hread hn (by decide)]
  rfl

/-- A row is about a property of a type if it names the property and the property was assigned to the
type. -/
theorem owned?_semanticsAt_eq_some_iff {members : Membership} {n property type : Nat} :
    members.owned? (image.semanticsAt n) = some (property, type) ↔
      image.cellValue Table.methodSemantics n 2 = 2 * property + 1 ∧
        members.propertyOwners.getD property 0 = type ∧ type ≠ 0 := by
  -- the association has to be a property, and the property an owner other than row 0
  rw [← propertyOf_eq_some_iff, Membership.owned?, semanticsAt]
  cases SemanticsRow.propertyOf (image.cellValue Table.methodSemantics n 2) with
  | none => exact ⟨nofun, nofun⟩
  | some found =>
    dsimp only
    rw [ite_eq_iff]
    constructor
    · rintro (⟨-, hnone⟩ | ⟨hpos, hsome⟩)
      · cases hnone
      · cases hsome
        exact ⟨rfl, rfl, hpos⟩
    · rintro ⟨hfound, howner, htype⟩
      cases hfound
      exact .inr ⟨howner ▸ htype, by rw [howner]⟩

/-- The word aside, a row gives a place if it names the property and a method that the type of the
property lists. -/
theorem accessorPlace?_semanticsAt {members : Membership} {type property : Nat} (n place : Nat)
    (htype : type ≠ 0) (howner : members.propertyOwners.getD property 0 = type)
    (hrange : members.methodRange type =
      image.listedRange Table.typeDef 5 Table.methodDef type) :
    members.accessorPlace? property (image.semanticsAt n) = some place ↔
      image.cellValue Table.methodSemantics n 2 = 2 * property + 1 ∧
        (image.listedRange Table.typeDef 5 Table.methodDef type).rows[place]? =
          some (image.cellValue Table.methodSemantics n 1) := by
  rw [Membership.accessorPlace?, ← place?_eq_some_iff, ← hrange]
  constructor
  · intro hsome
    split at hsome
    · next found owner howned =>
      obtain ⟨hnamed, hfound, -⟩ := owned?_semanticsAt_eq_some_iff.1 howned
      split at hsome
      · next hsame =>
        -- the property found is the given one, so its type is the given type
        rw [← hfound, hsame, howner] at hsome
        exact ⟨hsame ▸ hnamed, hsome⟩
      · cases hsome
    · cases hsome
  · rintro ⟨hnamed, hsome⟩
    rw [owned?_semanticsAt_eq_some_iff.2 ⟨hnamed, howner, htype⟩]
    exact (if_pos rfl).trans hsome

/-- A row associates a method exactly if it gives a place among the methods of the type, when the
property is owned by the type. -/
theorem placeIf?_semanticsAt (hread : Image.read data = .ok image) {members : Membership}
    (test : Nat → Bool) {type property n : Nat} (place : Nat) (htype : type ≠ 0)
    (howner : members.propertyOwners.getD property 0 = type)
    (hrange : members.methodRange type =
      image.listedRange Table.typeDef 5 Table.methodDef type)
    (hn : n ∈ List.range' 1 (image.rows Table.methodSemantics)) :
    members.placeIf? test property (image.semanticsAt n) = some place ↔
      ∃ method, image.Associates test type property n method ∧
        (image.listedRange Table.typeDef 5 Table.methodDef type).rows[place]? = some method := by
  have hplace := accessorPlace?_semanticsAt n place htype howner hrange
  simp only [Associates, cell_semantics hread hn (show 0 < 3 by decide),
    cell_semantics hread hn (show 1 < 3 by decide), cell_semantics hread hn (show 2 < 3 by decide),
    Except.ok.injEq]
  rw [Membership.placeIf?]
  constructor
  · intro hsome
    split at hsome
    · next htest =>
      obtain ⟨hproperty, hmethod⟩ := hplace.1 hsome
      exact ⟨_, ⟨_, rfl, htest, rfl, hproperty, List.mem_of_getElem? hmethod⟩, hmethod⟩
    · cases hsome
  · rintro ⟨_, ⟨_, rfl, htest, rfl, hproperty, -⟩, hmethod⟩
    have htest' : test (image.semanticsAt n).semantics = true := htest
    rw [if_pos htest']
    exact hplace.2 ⟨hproperty, hmethod⟩

/-- The last item of an ascending list that gives something. -/
theorem exists_of_getLast?_filterMap {items : List Nat} (hsorted : items.Pairwise (· < ·))
    {give : Nat → Option Nat} {b : Nat} (h : (items.filterMap give).getLast? = some b) :
    ∃ n ∈ items, give n = some b ∧ ∀ n' ∈ items, ∀ b', give n' = some b' → n' ≤ n := by
  -- the item splits the list: those before it are smaller, and those behind it give nothing
  obtain ⟨given, hgiven⟩ := List.getLast?_eq_some_iff.1 h
  obtain ⟨before, rest, rfl, -, hrest⟩ := List.filterMap_eq_append_iff.1 hgiven
  obtain ⟨skipped, n, behind, rfl, -, hgive, hbehind⟩ := List.filterMap_eq_cons_iff.1 hrest
  rw [← List.append_assoc] at hsorted ⊢
  refine ⟨n, List.mem_append_right _ List.mem_cons_self, hgive, fun n' hn' b' hgive' => ?_⟩
  obtain ⟨-, -, hsmaller⟩ := List.pairwise_append.1 hsorted
  rcases List.mem_append.1 hn' with hn' | hn'
  · exact Nat.le_of_lt (hsmaller n' hn' n List.mem_cons_self)
  · rcases List.mem_cons.1 hn' with rfl | hn'
    · exact Nat.le_refl _
    · rw [List.filterMap_eq_nil_iff.1 hbehind n' hn'] at hgive'
      cases hgive'

/-- Lists that correspond have corresponding items. -/
theorem exists_getElem?_of_forall₂ {α β : Type} {R : α → β → Prop} {as : List α} {bs : List β}
    (h : List.Forall₂ R as bs) {i : Nat} {a : α} (ha : as[i]? = some a) :
    ∃ b, bs[i]? = some b ∧ R a b := by
  obtain ⟨hi, rfl⟩ := List.getElem?_eq_some_iff.1 ha
  have hi' : i < bs.length := h.length_eq ▸ hi
  exact ⟨bs[i], List.getElem?_eq_getElem hi', h.get hi hi'⟩

/-- The last place that the rows give is the accessor. -/
theorem isAccessor_getLast? (hread : Image.read data = .ok image) {members : Membership}
    (test : Nat → Bool) {type property : Nat} {methods : List MethodDecl} (htype : type ≠ 0)
    (howner : members.propertyOwners.getD property 0 = type)
    (hrange : members.methodRange type =
      image.listedRange Table.typeDef 5 Table.methodDef type)
    (hsemantics : image.semanticsRows = .ok members.semantics)
    (hmethods : List.Forall₂ image.IsMethod
      (image.listedRange Table.typeDef 5 Table.methodDef type).rows methods) :
    image.IsAccessor test type property methods
      (members.semantics.filterMap (members.placeIf? test property)).getLast? := by
  have hplaces (n : Nat) (hn : n ∈ List.range' 1 (image.rows Table.methodSemantics)) (place : Nat) :=
    placeIf?_semanticsAt hread test place htype howner hrange hn
  -- a row that associates a method gives a place
  have hgives {n method : Nat} (h : image.Associates test type property n method) :
      n ∈ List.range' 1 (image.rows Table.methodSemantics) ∧
        ∃ place, members.placeIf? test property (image.semanticsAt n) = some place := by
    obtain ⟨semantics, hcell, -, -, -, hmethod⟩ := id h
    have hn := mem_range'_of_cell hcell
    obtain ⟨place, hplace⟩ := List.mem_iff_getElem?.1 hmethod
    exact ⟨hn, place, (hplaces n hn place).2 ⟨method, h, hplace⟩⟩
  rw [semanticsRows_of_read hread, Except.ok.injEq] at hsemantics
  rw [← hsemantics, List.filterMap_map]
  refine ⟨?_, fun place hlast => ?_⟩
  · rw [List.getLast?_isSome]
    constructor
    · intro hne
      obtain ⟨place, hmem⟩ := List.exists_mem_of_ne_nil _ hne
      obtain ⟨n, hn, hgive⟩ := List.mem_filterMap.1 hmem
      obtain ⟨method, h, -⟩ := (hplaces n hn place).1 hgive
      exact ⟨n, method, h⟩
    · rintro ⟨n, method, h⟩
      obtain ⟨hn, place, hgive⟩ := hgives h
      exact List.ne_nil_of_mem (List.mem_filterMap.2 ⟨n, hn, hgive⟩)
  · obtain ⟨n, hn, hgive, hlater⟩ := exists_of_getLast?_filterMap List.pairwise_lt_range' hlast
    obtain ⟨method, hassociates, hmethod⟩ := (hplaces n hn place).1 hgive
    obtain ⟨decl, hdecl, hof⟩ := exists_getElem?_of_forall₂ hmethods hmethod
    refine ⟨n, method, decl, hassociates, fun n' method' h => ?_, hmethod, hdecl, hof⟩
    obtain ⟨hn', place', hgive'⟩ := hgives h
    exact hlater n' hn' place' hgive'

end Rows

section Loaded

variable {data : Bytes} {m : Module} {image : Image} {name : String} {members : Membership}
  {enclosing : Enclosing} {decls : List (Tree TypeDecl)}

/-! ### What the map rows assign -/

/-- The rows that map rows assign are those from the first listed one on. -/
theorem map_row_eq {mapTable table : Nat} {found : List OwnedRow}
    (h : image.assignedRows mapTable table = .ok found) :
    found.map OwnedRow.row = image.rowsFrom table (image.listStart mapTable 1 table 1) := by
  obtain ⟨⟨ranges, hranges⟩, -, -, hpairs⟩ := of_assignedRows h
  have hrows := congrArg (List.map Prod.snd) hpairs
  rw [List.map_map, List.map_flatMap] at hrows
  rw [← flatMap_listedRange hranges]
  simpa only [List.map_map, Function.comp_def, List.map_id'] using hrows

/-- Map rows assign rows to type rows. -/
theorem owner_mem_of_assignedRows {mapTable table : Nat} {found : List OwnedRow}
    (h : image.assignedRows mapTable table = .ok found) {member : OwnedRow}
    (hmember : member ∈ found) : member.owner ∈ List.range' 1 (image.rows Table.typeDef) := by
  obtain ⟨-, hparents, -, hpairs⟩ := of_assignedRows h
  have hpair := List.mem_map_of_mem (f := fun member => (member.owner, member.row)) hmember
  rw [hpairs] at hpair
  obtain ⟨k, hk, hrow⟩ := List.mem_flatMap.1 hpair
  obtain ⟨row, -, hsame⟩ := List.mem_map.1 hrow
  rw [← (Prod.mk.inj hsame).1]
  exact hparents k hk

/-- A row that is assigned to a type is found to be owned by the type. -/
theorem getD_ownersOf_assignedRows {mapTable table : Nat} {found : List OwnedRow}
    (h : image.assignedRows mapTable table = .ok found) {member : OwnedRow}
    (hmember : member ∈ found) :
    member.row ≤ image.rows table ∧
      (ownersOf (image.rows table) found).getD member.row 0 = member.owner := by
  have hrows := map_row_eq h
  -- the assigned rows are consecutive rows of the table, so none is assigned twice
  have hbound : member.row ≤ image.rows table := by
    have hmem := List.mem_map_of_mem (f := OwnedRow.row) hmember
    rw [hrows, rowsFrom, List.mem_range'_1] at hmem
    omega
  have hnodup : (found.map OwnedRow.row).Nodup := by
    rw [hrows]
    exact List.nodup_range'
  exact ⟨hbound, getD_ownersOf hnodup hmember hbound⟩

/-! ### The accessors of a loaded module -/

/-- An accessor is the place of a method. -/
theorem IsAccessor.lt_length {test : Nat → Bool} {type property place : Nat}
    {methods : List MethodDecl} {accessor : Option Nat}
    (h : image.IsAccessor test type property methods accessor) (hplace : accessor = some place) :
    place < methods.length := by
  obtain ⟨_, _, _, -, -, -, hdecl, -⟩ := h.last place hplace
  exact (List.getElem?_eq_some_iff.1 hdecl).1

/-- The properties of a type have the accessors that the rows of the image give. -/
theorem Loads.forall₂_accessors (h : Loads data m image name members enclosing decls)
    {id type : Nat} {decl : TypeDecl} (hid : (preorderAll enclosing.forest)[id]? = some type)
    (hdecl : m.get? id = some decl) :
    List.Forall₂
      (fun row property => image.cellString Table.property row 1 = .ok property.name ∧
        image.IsAccessor readsProperty type row decl.methods property.getter ∧
        image.IsAccessor writesProperty type row decl.methods property.setter)
      (image.mappedRows Table.propertyMap Table.property type) decl.properties := by
  obtain ⟨-, hmethodRuns⟩ := runs_of_membership h.members_eq
  obtain ⟨-, ⟨found, hfound, hgroups, howners⟩, hsemantics⟩ := assigned_of_membership h.members_eq
  -- the methods must be known before the type is taken apart: accessors are places among them
  have hmethods := h.forall₂_methods hid hdecl
  obtain ⟨htype, read, parent, ids, hread, rfl⟩ := h.exists_typeDecl_of_get? hid hdecl
  obtain ⟨_, _, _, _, _, -, -, -, -, -, rfl⟩ := typeDecl_eq_ok_iff.1 hread
  have hbound := List.mem_range'_1.1 htype
  change List.Forall₂ _ _ ((members.properties.getD type []).map _)
  rw [hgroups, getD_groupByOwner found (by omega), ← map_row_filter_eq hfound,
    List.forall₂_map_left_iff, List.forall₂_map_right_iff, List.forall₂_same]
  -- now both lists come from the members that are assigned to the type
  intro member hmember
  obtain ⟨hmem, hsame⟩ := List.mem_filter.1 hmember
  have howner : member.owner = type := of_decide_eq_true hsame
  obtain ⟨-, -, hnames, -⟩ := of_assignedRows hfound
  obtain ⟨hrow, hfoundOwner⟩ := getD_ownersOf_assignedRows hfound hmem
  rw [← howners, howner] at hfoundOwner
  have hsize : member.row < members.propertyOwners.size := by
    rw [howners, ownersOf, size_foldl_setIfInBounds, Array.size_replicate]
    omega
  have haccessors (test : Nat → Bool) :=
    isAccessor_getLast? h.image_eq test (by omega) hfoundOwner
      (hmethodRuns.eq_listedRange htype) hsemantics hmethods
  dsimp only
  rw [Membership.getD_accessors hsize]
  exact ⟨hnames member hmem, haccessors readsProperty, haccessors writesProperty⟩

/-- Every id of a loaded module has a row. -/
theorem Loads.exists_row_of_get? (h : Loads data m image name members enclosing decls) {id : Nat}
    {decl : TypeDecl} (hdecl : m.get? id = some decl) :
    ∃ type, (preorderAll enclosing.forest)[id]? = some type := by
  obtain ⟨content, hdecls, -⟩ := h.exists_content
  have hrow := h.get?_eq_map hdecls rfl id
  rw [hdecl] at hrow
  obtain ⟨type, hid, -⟩ := Option.map_eq_some_iff.1 hrow.symm
  exact ⟨type, hid⟩

/-- The accessors of the properties of a loaded module are those that the rows of its image give. -/
theorem Loads.keepsAccessors (h : Loads data m image name members enclosing decls) :
    image.KeepsAccessors m (preorderAll enclosing.forest) := by
  refine ⟨fun _ _ _ => h.forall₂_accessors, fun id decl hdecl property hmem place hplace => ?_⟩
  obtain ⟨type, hid⟩ := h.exists_row_of_get? hdecl
  obtain ⟨i, hi⟩ := List.mem_iff_getElem?.1 hmem
  obtain ⟨row, -, -, hgetter, hsetter⟩ :=
    exists_getElem?_of_forall₂ (h.forall₂_accessors hid hdecl).flip hi
  rcases hplace with hplace | hplace
  · exact hgetter.lt_length hplace
  · exact hsetter.lt_length hplace

/-! ### Rows that do not count -/

namespace Membership

/-- A row that does not count is taken in without effect. -/
theorem addAccessor_of_not_counts (hread : Image.read data = .ok image)
    (hmembers : image.membership = .ok members) {n : Nat}
    (hn : n ∈ List.range' 1 (image.rows Table.methodSemantics)) (hnot : ¬ image.Counts n)
    (found : Array Accessors) : members.addAccessor found (image.semanticsAt n) = found := by
  obtain ⟨-, ⟨properties, hproperties, -, howners⟩, -⟩ := assigned_of_membership hmembers
  obtain ⟨-, hmethodRuns⟩ := runs_of_membership hmembers
  rw [addAccessor]
  split
  · rfl
  · next property type howned =>
    obtain ⟨hnamed, howner, htype⟩ := owned?_semanticsAt_eq_some_iff.1 howned
    rw [howners] at howner
    obtain ⟨member, hmember, rfl, rfl⟩ := exists_of_getD_ownersOf howner htype
    split
    · rfl
    · next place hplace =>
      have hlisted : member.row ∈ image.mappedRows Table.propertyMap Table.property member.owner := by
        rw [← map_row_filter_eq hproperties]
        exact List.mem_map_of_mem (List.mem_filter.2 ⟨hmember, decide_eq_true rfl⟩)
      have hparent := owner_mem_of_assignedRows hproperties hmember
      rw [hmethodRuns.eq_listedRange hparent] at hplace
      -- a row that names a method of the type counts unless its word says nothing
      have hassociates (test : Nat → Bool) (htest : test (image.semanticsAt n).semantics = true) :
          image.Associates test member.owner member.row n (image.semanticsAt n).method :=
        ⟨_, cell_semantics hread hn (by decide), htest, cell_semantics hread hn (by decide),
          hnamed ▸ cell_semantics hread hn (by decide),
          List.mem_of_getElem? (place?_eq_some_iff.1 hplace)⟩
      split
      · next hgetter =>
        exact absurd ⟨_, _, _, hlisted, .inl (hassociates readsProperty hgetter)⟩ hnot
      · split
        · next hsetter =>
          rw [SemanticsRow.isSetter, Bool.and_comm] at hsetter
          exact absurd ⟨_, _, _, hlisted, .inr (hassociates writesProperty hsetter)⟩ hnot
        · rfl

/-- Rows that do not count may be left out. -/
theorem accessors_filter_counting (hread : Image.read data = .ok image)
    (hmembers : image.membership = .ok members) {keep : Nat → Bool}
    (hkeep : ∀ n, image.Counts n → keep n = true) :
    (image.keepingRows keep members).accessors = members.accessors := by
  obtain ⟨-, -, hsemantics⟩ := assigned_of_membership hmembers
  rw [semanticsRows_of_read hread, Except.ok.injEq] at hsemantics
  -- to leave out rows is to take them in without effect
  rw [accessors, accessors, ← hsemantics, keepingRows, List.foldl_map, List.foldl_map,
    List.foldl_filter]
  refine List.foldl_ext _ _ _ fun found n hn => ?_
  split
  · rfl
  · next hleft =>
    exact (addAccessor_of_not_counts hread hmembers hn (fun h => hleft (hkeep n h)) found).symm

end Membership

end Loaded

/-- The properties of a loaded module have the accessors that the rows of its image give, and these
are places of methods. Rows that do not count are always read, and a file is loaded, or refused, as if
any of them were left out. -/
theorem load_accessors (data : Bytes) :
    (∀ m, load data = .ok m → ∃ image rows, Image.read data = .ok image ∧ image.Rebuilds m rows ∧
      image.KeepsAccessors m rows) ∧
    ∀ image, Image.read data = .ok image →
      image.semanticsRows =
        .ok ((List.range' 1 (image.rows Table.methodSemantics)).map image.semanticsAt) ∧
      ∀ name members, survey data = .ok (image, name, members) →
        ∀ keep : Nat → Bool, (∀ n, image.Counts n → keep n = true) →
          load data = image.loadTypes name (image.keepingRows keep members) := by
  refine ⟨fun m hload => ?_, fun image hread => ⟨semanticsRows_of_read hread, ?_⟩⟩
  · obtain ⟨image, name, members, enclosing, decls, h⟩ := load_eq_ok_iff.1 hload
    exact ⟨image, _, h.image_eq, h.rebuilds, h.keepsAccessors⟩
  · intro name members hsurvey keep hkeep
    obtain ⟨-, -, hmembers⟩ := survey_eq_ok_iff.1 hsurvey
    -- the rows are used for the accessors only
    have haccessors := Membership.accessors_filter_counting hread hmembers hkeep
    rw [load, hsurvey, ok_bind]
    simp only [loadTypes, haccessors]
    rfl

/-- In the image with members the third of the rows that associate methods does not count. -/
theorem not_counts_memberImage {image : Image} (hread : Image.read memberImage = .ok image) :
    ¬ image.Counts 3 := by
  have htry : okAnd (fun image => decide (image.rows Table.propertyMap = 1 ∧
      image.cell Table.propertyMap 1 0 = .ok 1 ∧ image.cell Table.methodSemantics 3 1 = .ok 3 ∧
        (image.listedRange Table.typeDef 5 Table.methodDef 1).rows = [1, 2]))
      (Image.read memberImage) = true := by
    decide +kernel
  obtain ⟨image', hread', hcells⟩ := okAnd_eq_true_iff.1 htry
  cases hread.symm.trans hread'
  obtain ⟨hrows, hparent, hcell, hmethods⟩ := of_decide_eq_true hcells
  rintro ⟨type, property, method, hlisted, hassociates⟩
  -- the only map row names type 1, and the row names method 3
  obtain ⟨k, hk, -⟩ := List.mem_flatMap.1 hlisted
  obtain ⟨hk, hsame⟩ := List.mem_filter.1 hk
  rw [hrows] at hk
  obtain rfl := List.mem_singleton.1 hk
  rw [cellValue_of_cell hparent] at hsame
  obtain rfl : 1 = type := of_decide_eq_true hsame
  have hmethod : image.cell Table.methodSemantics 3 1 = .ok method ∧
      method ∈ (image.listedRange Table.typeDef 5 Table.methodDef 1).rows := by
    rcases hassociates with ⟨_, -, -, hmethod, -, hmem⟩ | ⟨_, -, -, hmethod, -, hmem⟩
    · exact ⟨hmethod, hmem⟩
    · exact ⟨hmethod, hmem⟩
  rw [hcell, hmethods, Except.ok.injEq] at hmethod
  obtain ⟨rfl, hmem⟩ := hmethod
  exact absurd hmem (by decide)

/-- The image with members is loaded with the accessors of its rows, and it is loaded alike if the
third row, which does not count, is left out. -/
theorem load_accessors_memberImage :
    ∃ (image : Image) (rows : List Nat) (m : Module) (name : String) (members : Membership),
      load memberImage = .ok m ∧ image.KeepsAccessors m rows ∧
        (m.get? 0).map (fun decl => decl.properties.map PropertyDecl.getter) = some [some 1, none] ∧
        (m.get? 0).map (fun decl => decl.properties.map PropertyDecl.setter) = some [none, some 0] ∧
        survey memberImage = .ok (image, name, members) ∧
        image.loadTypes name (image.keepingRows (fun n => n ≠ 3) members) = .ok m := by
  obtain ⟨m, hload, hgetters, hsetters⟩ := exists_load_memberImage
  obtain ⟨image, rows, hread, -, hkeeps⟩ := (load_accessors memberImage).1 m hload
  obtain ⟨image', name, members, _, _, h⟩ := load_eq_ok_iff.1 hload
  cases hread.symm.trans h.image_eq
  have hsurvey := survey_eq_ok_iff.2 ⟨hread, h.name_eq, h.members_eq⟩
  obtain ⟨-, hleft⟩ := (load_accessors memberImage).2 image hread
  refine ⟨image, rows, m, name, members, hload, hkeeps, hgetters, hsetters, hsurvey, ?_⟩
  rw [← hleft name members hsurvey, hload]
  intro n hcounts
  refine decide_eq_true fun hthree => not_counts_memberImage hread ?_
  rwa [hthree] at hcounts

end PublicAssembly.Image
