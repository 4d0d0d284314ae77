import PublicAssembly.Proofs.Image.Reconstruction

/-!
# No member is lost or taken twice

Which members a type has is said by where lists begin: the list of a row goes up to the start of the
next list, and the last one to the end of the table. So the fields of all types, taken in the order of
the type rows, are the field rows from the first start on, and so are the methods. Events and
properties are listed by the rows of map tables, and each map row names the type that its list belongs
to; several map rows may name the same type.

## Main definitions

* `Image.listedRange`: the list that a row has by a list column;
* `Image.mappedRows`: the rows that the map rows of a type list;
* `Image.IsMember`: what a field or a method has from its row;
* `Image.KeepsMembers`: what there is to say about the members of a loaded module;
* `Image.MemberFault`: what may be wrong with the lists.

## Main statements

* `listRanges_eq`: the lists that are read are those between two starts;
* `of_assignedRows`: what the rows of a map table assign;
* `Loads.keepsMembers`: the members of every loaded module;
* `load_members`: the members of what is loaded, and what is refused.
-/

namespace PublicAssembly

open Metadata (Table columns)
open Reading
open PublicAssembly.Tree (preorderAll)

/-- The types of a module in the order of their rows, where `rows` names the row of each id. -/
def Module.inRowOrder (m : Module) (rows : List Nat) : List TypeDecl :=
  (List.range' 1 rows.length).filterMap fun row => m.get? (rows.idxOf row)

namespace Image

/-- The number in a cell, 0 if there is no such cell. -/
def cellValue (image : Image) (table : Table) (row column : Nat) : Nat :=
  match image.cell table row column with
  | .ok n => n
  | .error _ => 0

/-- The row of the target table at which the list of a row begins. Behind the last row there is one
more start, behind the last row of the target table. -/
def listStart (image : Image) (table : Table) (column : Nat) (target : Table) (owner : Nat) : Nat :=
  if owner ≤ image.rows table then image.cellValue table owner column else image.rows target + 1

/-- The list of a row, from its start up to the next one. -/
def listedRange (image : Image) (table : Table) (column : Nat) (target : Table) (owner : Nat) :
    RowRange :=
  ⟨image.listStart table column target owner, image.listStart table column target (owner + 1)⟩

/-- The rows of a table from the given one on. -/
def rowsFrom (image : Image) (table : Table) (first : Nat) : List Nat :=
  List.range' first (image.rows table + 1 - first)

/-- The rows that the map rows of a type list, map row after map row. -/
def mappedRows (image : Image) (mapTable table : Table) (type : Nat) : List Nat :=
  ((List.range' 1 (image.rows mapTable)).filter fun k =>
    image.cellValue mapTable k 0 = type).flatMap fun k => (image.listedRange mapTable 1 table k).rows

/-- What a field or a method has from its row: the token names the row, the name is that of the row,
and the flag word of the row is taken apart into access and attributes. -/
structure IsMember (image : Image) (table : Table) (flagColumn nameColumn row : Nat)
    (memberToken : Option UInt32) (name : String) (access : Access) (attributes : UInt16) : Prop where
  /-- The token names the row. -/
  token_eq : memberToken = some (token table row)
  /-- The name is that of the row. -/
  name_eq : image.cellString table row nameColumn = .ok name
  /-- The access is that of the low bits of the flag word, and the attributes are the other bits. -/
  flags_eq : ∃ flags, image.cell table row flagColumn = .ok flags ∧ access.bits = flags % 8 ∧
    attributes.toNat = flags / 8 * 8

/-- The field is that of a row. -/
def IsField (image : Image) (row : Nat) (field : FieldDecl) : Prop :=
  image.IsMember Table.field 0 1 row field.token field.name field.access field.attributes

/-- The method is that of a row. -/
def IsMethod (image : Image) (row : Nat) (method : MethodDecl) : Prop :=
  image.IsMember Table.methodDef 2 3 row method.token method.name method.access method.attributes

/-- The members of the types of a module are those of the rows of an image, `rows` naming the row of
each id. -/
structure KeepsMembers (image : Image) (m : Module) (rows : List Nat) : Prop where
  /-- The fields of a type are those that its row lists. -/
  fields : ∀ id type decl, rows[id]? = some type → m.get? id = some decl →
    List.Forall₂ image.IsField (image.listedRange Table.typeDef 4 Table.field type).rows decl.fields
  /-- The methods of a type are those that its row lists. -/
  methods : ∀ id type decl, rows[id]? = some type → m.get? id = some decl →
    List.Forall₂ image.IsMethod (image.listedRange Table.typeDef 5 Table.methodDef type).rows
      decl.methods
  /-- The events of a type are those that its map rows list. -/
  events : ∀ id type decl, rows[id]? = some type → m.get? id = some decl →
    List.Forall₂ (fun row name => image.cellString Table.event row 1 = .ok name)
      (image.mappedRows Table.eventMap Table.event type) decl.events
  /-- The properties of a type are those that its map rows list. -/
  properties : ∀ id type decl, rows[id]? = some type → m.get? id = some decl →
    List.Forall₂ (fun row name => image.cellString Table.property row 1 = .ok name)
      (image.mappedRows Table.propertyMap Table.property type)
      (decl.properties.map PropertyDecl.name)
  /-- The fields of all types, in the order of the type rows, are the field rows from the first
  listed one on. -/
  allFields : List.Forall₂ image.IsField
    (image.rowsFrom Table.field (image.listStart Table.typeDef 4 Table.field 1))
    ((m.inRowOrder rows).flatMap TypeDecl.fields)
  /-- The methods of all types, in the order of the type rows, are the method rows from the first
  listed one on. -/
  allMethods : List.Forall₂ image.IsMethod
    (image.rowsFrom Table.methodDef (image.listStart Table.typeDef 5 Table.methodDef 1))
    ((m.inRowOrder rows).flatMap TypeDecl.methods)
  /-- Every event row from the first listed one on belongs to one type, once. -/
  allEvents : ((List.range' 1 (image.rows Table.typeDef)).flatMap
      (image.mappedRows Table.eventMap Table.event)).Perm
    (image.rowsFrom Table.event (image.listStart Table.eventMap 1 Table.event 1))
  /-- Every property row from the first listed one on belongs to one type, once. -/
  allProperties : ((List.range' 1 (image.rows Table.typeDef)).flatMap
      (image.mappedRows Table.propertyMap Table.property)).Perm
    (image.rowsFrom Table.property (image.listStart Table.propertyMap 1 Table.property 1))

/-- The columns that say where lists of members begin, with the table of the members. -/
def memberLists : List (Table × Nat × Table) :=
  [(Table.typeDef, 4, Table.field), (Table.typeDef, 5, Table.methodDef),
    (Table.eventMap, 1, Table.event), (Table.propertyMap, 1, Table.property)]

/-- What may be wrong with the lists of members of an image. -/
inductive MemberFault (image : Image) : Prop where
  /-- A list begins at row 0. -/
  | zero {table column target owner : Nat} (hlist : (table, column, target) ∈ memberLists)
    (hcell : image.cell table owner column = .ok 0) : MemberFault image
  /-- A list begins before the one of the row before. -/
  | decreases {table column target owner first next : Nat}
    (hlist : (table, column, target) ∈ memberLists)
    (hcell : image.cell table owner column = .ok first)
    (hnext : image.cell table (owner + 1) column = .ok next) (hlt : next < first) :
    MemberFault image
  /-- A list begins more than one row behind the last row. -/
  | exceeds {table column target owner first : Nat} (hlist : (table, column, target) ∈ memberLists)
    (hcell : image.cell table owner column = .ok first) (hlt : image.rows target + 1 < first) :
    MemberFault image
  /-- A map row names a type row that is not there. -/
  | badParent {mapTable k type : Nat} (hmap : mapTable = Table.eventMap ∨ mapTable = Table.propertyMap)
    (hcell : image.cell mapTable k 0 = .ok type)
    (hbad : type = 0 ∨ image.rows Table.typeDef < type) : MemberFault image

section Lists

variable {image : Image} {table column target : Nat}

/-- The number in a cell that can be read. -/
theorem cellValue_of_cell {row n : Nat} (h : image.cell table row column = .ok n) :
    image.cellValue table row column = n := by
  rw [cellValue, h]

theorem listStart_of_cell {owner n : Nat} (h : image.cell table owner column = .ok n) :
    image.listStart table column target owner = n := by
  rw [listStart, if_pos (row_of_cell h).2, cellValue_of_cell h]

/-- A row with a cell that can be read is a row of the table. -/
theorem mem_range'_of_cell {row n : Nat} (h : image.cell table row column = .ok n) :
    row ∈ List.range' 1 (image.rows table) := by
  obtain ⟨hpos, hle⟩ := row_of_cell h
  rw [List.mem_range'_1]
  omega

/-- The numbers in a column, row after row. -/
theorem columnValues_eq {values : List Nat} (h : image.columnValues table column = .ok values) :
    values = (List.range' 1 (image.rows table)).map fun row => image.cellValue table row column := by
  rw [← List.map_id values]
  exact map_eq_of_mapM h fun row n hn => (cellValue_of_cell hn).symm

/-- The lists that are read are those between two starts. -/
theorem listRanges_eq {ranges : List RowRange}
    (h : image.listRanges table column target = .ok ranges) :
    ranges = (List.range' 1 (image.rows table)).map (image.listedRange table column target) := by
  -- both lists are compared place by place: place i is that of row i + 1
  rw [listRanges, bind_eq_ok_iff] at h
  obtain ⟨starts, hstarts, hranges⟩ := h
  have hvalues := columnValues_eq hstarts
  have hplace {i : Nat} (hi : i < image.rows table) :
      (List.range' 1 (image.rows table))[i]? = some (i + 1) := by
    rw [List.getElem?_range' hi, Nat.one_mul, Nat.add_comm]
  have hbehind {i : Nat} (hi : ¬ i < image.rows table) :
      (List.range' 1 (image.rows table))[i]? = none := by
    rw [List.getElem?_eq_none_iff, List.length_range']
    omega
  -- the start behind the last one is behind the table
  have hstart (i : Nat) : starts.getD i (image.rows target + 1) =
      image.listStart table column target (i + 1) := by
    rw [hvalues, List.getD_eq_getElem?_getD, List.getElem?_map, listStart]
    by_cases hi : i < image.rows table
    · rw [hplace hi, if_pos (by omega)]
      rfl
    · rw [hbehind hi, if_neg (by omega)]
      rfl
  refine List.ext_getElem? fun i => ?_
  rw [getElem?_rangesFrom hranges, hstart, List.getElem?_map]
  by_cases hi : i < image.rows table
  · have hfirst : starts[i]? = some (image.listStart table column target (i + 1)) := by
      rw [hvalues, List.getElem?_map, hplace hi, listStart, if_pos (by omega)]
      rfl
    rw [hfirst, hplace hi]
    rfl
  · rw [hbehind hi, hvalues, List.getElem?_map, hbehind hi]
    rfl

/-- The lists of all rows, one behind the other, are the rows from the first start on. -/
theorem flatMap_listedRange {ranges : List RowRange}
    (h : image.listRanges table column target = .ok ranges) :
    ((List.range' 1 (image.rows table)).flatMap fun owner =>
      (image.listedRange table column target owner).rows) =
        image.rowsFrom target (image.listStart table column target 1) := by
  have hranges := listRanges_eq h
  rw [listRanges, bind_eq_ok_iff] at h
  obtain ⟨starts, hstarts, hread⟩ := h
  have hrows := flatMap_rows hread
  -- a table without rows has its first start behind the target table
  have hfirst : starts.headD (image.rows target + 1) = image.listStart table column target 1 := by
    rw [columnValues_eq hstarts, listStart]
    cases image.rows table with
    | zero => rfl
    | succ n =>
      rw [List.range'_succ, if_pos (by omega)]
      rfl
  rw [hranges, List.flatMap_map, hfirst] at hrows
  exact hrows

/-- Lists that were read begin at a row, in order, and in the table. -/
theorem bounds_of_listRanges {ranges : List RowRange}
    (h : image.listRanges table column target = .ok ranges) {owner : Nat}
    (howner : owner ∈ List.range' 1 (image.rows table)) :
    0 < image.listStart table column target owner ∧
      image.listStart table column target owner ≤ image.listStart table column target (owner + 1) ∧
      image.listStart table column target (owner + 1) ≤ image.rows target + 1 := by
  have hmem : image.listedRange table column target owner ∈ ranges := by
    rw [listRanges_eq h]
    exact List.mem_map_of_mem howner
  rw [listRanges, bind_eq_ok_iff] at h
  obtain ⟨starts, -, hread⟩ := h
  exact bounds_of_rangesFrom hread hmem

/-! ### Events and properties -/

variable {mapTable : Nat}

/-- Rows that are assigned to a type keep the order, and have their names. -/
theorem of_ownedRows {owner : Nat} {rows : List Nat} {found : List OwnedRow}
    (h : image.ownedRows owner table rows = .ok found) :
    found.map (fun member => (member.owner, member.row)) = rows.map (fun row => (owner, row)) ∧
      ∀ member ∈ found, image.cellString table member.row 1 = .ok member.name := by
  constructor
  · refine map_eq_of_mapM h fun row member hmember => ?_
    simp only [bind_eq_ok_iff, pure_eq_ok_iff] at hmember
    obtain ⟨name, -, rfl⟩ := hmember
    rfl
  · intro member hmember
    obtain ⟨row, -, hrow⟩ := (mem_mapM_iff h).1 hmember
    simp only [bind_eq_ok_iff, pure_eq_ok_iff] at hrow
    obtain ⟨name, hname, rfl⟩ := hrow
    exact hname

/-- What map rows assign: each names a type, its list is assigned to that type, and all members have
their names. -/
theorem of_assignRows {ks : List Nat} {parent : Nat → Nat} {range : Nat → RowRange}
    {found : List OwnedRow}
    (h : image.assignRows mapTable table (ks.map parent) (ks.map range) = .ok found) :
    (∀ k ∈ ks, parent k ∈ List.range' 1 (image.rows Table.typeDef)) ∧
      (∀ member ∈ found, image.cellString table member.row 1 = .ok member.name) ∧
      found.map (fun member => (member.owner, member.row)) =
        ks.flatMap fun k => (range k).rows.map fun row => (parent k, row) := by
  -- one map row after another, as the reading goes
  induction ks generalizing found with
  | nil =>
    cases h
    exact ⟨nofun, nofun, rfl⟩
  | cons k ks ih =>
    simp only [List.map_cons, assignRows, throw_eq, error_bind, bind_eq_ok_iff, ite_error_eq_ok_iff,
      pure_eq_ok_iff, not_or, Nat.not_lt] at h
    obtain ⟨⟨hpos, hle⟩, here, hhere, rest, hrest, rfl⟩ := h
    obtain ⟨hparents, hnames, hpairs⟩ := ih hrest
    obtain ⟨hpairsHere, hnamesHere⟩ := of_ownedRows hhere
    refine ⟨List.forall_mem_cons.2 ⟨?_, hparents⟩, fun member hmember => ?_, ?_⟩
    · rw [List.mem_range'_1]
      omega
    · rcases List.mem_append.1 hmember with hmember | hmember
      · exact hnamesHere member hmember
      · exact hnames member hmember
    · rw [List.map_append, List.flatMap_cons, hpairsHere, hpairs]

/-- What the rows of a map table assign. -/
theorem of_assignedRows {found : List OwnedRow}
    (h : image.assignedRows mapTable table = .ok found) :
    (∃ ranges, image.listRanges mapTable 1 table = .ok ranges) ∧
      (∀ k ∈ List.range' 1 (image.rows mapTable),
        image.cellValue mapTable k 0 ∈ List.range' 1 (image.rows Table.typeDef)) ∧
      (∀ member ∈ found, image.cellString table member.row 1 = .ok member.name) ∧
      found.map (fun member => (member.owner, member.row)) =
        (List.range' 1 (image.rows mapTable)).flatMap fun k =>
          (image.listedRange mapTable 1 table k).rows.map fun row =>
            (image.cellValue mapTable k 0, row) := by
  simp only [assignedRows, bind_eq_ok_iff] at h
  obtain ⟨owners, howners, ranges, hranges, hassigned⟩ := h
  rw [columnValues_eq howners, listRanges_eq hranges] at hassigned
  exact ⟨⟨ranges, hranges⟩, of_assignRows hassigned⟩

/-- Of pairs that come in groups with the same first part, those with one first part come from the
groups that have it. -/
theorem map_snd_filter_flatMap (ks : List Nat) (parent : Nat → Nat) (rows : Nat → List Nat)
    (type : Nat) :
    (((ks.flatMap fun k => (rows k).map fun row => (parent k, row)).filter
      fun pair => pair.1 = type).map Prod.snd) =
        (ks.filter fun k => parent k = type).flatMap rows := by
  induction ks with
  | nil => rfl
  | cons k ks ih =>
    rw [List.flatMap_cons, List.filter_append, List.map_append, ih, List.filter_cons]
    by_cases hk : parent k = type
    · simp [hk, List.filter_map, Function.comp_def]
    · simp [hk, List.filter_map, Function.comp_def]

/-- The members that are assigned to a type are those that its map rows list. -/
theorem map_row_filter_eq {found : List OwnedRow}
    (h : image.assignedRows mapTable table = .ok found) (type : Nat) :
    (found.filter fun member => member.owner = type).map OwnedRow.row =
      image.mappedRows mapTable table type := by
  obtain ⟨-, -, -, hpairs⟩ := of_assignedRows h
  rw [mappedRows, ← map_snd_filter_flatMap, ← hpairs, List.filter_map, List.map_map]
  rfl

/-- The members of a type row among those that are grouped. -/
theorem getD_groupByOwner {types type : Nat} (members : List OwnedRow) (htype : type ≤ types) :
    (groupByOwner types members).getD type [] =
      members.filter fun member => member.owner = type := by
  have hplace := getElem?_foldr_modify (fun member : OwnedRow => some member.owner) members
    (types + 1) type
  rw [if_pos (by omega)] at hplace
  rw [Array.getD_eq_getD_getElem?, groupByOwner]
  refine (congrArg (fun found => Option.getD found []) hplace).trans ?_
  simp

/-- The names of the members of a type row are those of the rows that its map rows list. -/
theorem forall₂_getD_groupByOwner {found : List OwnedRow}
    (h : image.assignedRows mapTable table = .ok found) {types type : Nat} (htype : type ≤ types) :
    List.Forall₂ (fun row name => image.cellString table row 1 = .ok name)
      (image.mappedRows mapTable table type)
      (((groupByOwner types found).getD type []).map OwnedRow.name) := by
  obtain ⟨-, -, hnames, -⟩ := of_assignedRows h
  rw [getD_groupByOwner found htype, ← map_row_filter_eq h, List.forall₂_map_left_iff,
    List.forall₂_map_right_iff, List.forall₂_same]
  intro member hmember
  exact hnames member (List.mem_filter.1 hmember).1

/-- Items that are sorted by their keys are the same items. -/
theorem perm_flatMap_filter {types ks : List Nat} (htypes : types.Nodup) (hks : ks.Nodup)
    {parent : Nat → Nat} (hparent : ∀ k ∈ ks, parent k ∈ types) :
    (types.flatMap fun type => ks.filter fun k => parent k = type).Perm ks := by
  refine (List.perm_ext_iff_of_nodup ?_ hks).2 fun k => ?_
  · refine List.nodup_flatMap.2 ⟨fun type _ => hks.filter _, htypes.imp fun {a b} hne => ?_⟩
    -- an item has one key
    refine List.disjoint_left.2 fun k hka hkb => hne ?_
    have ha : parent k = a := of_decide_eq_true (List.mem_filter.1 hka).2
    have hb : parent k = b := of_decide_eq_true (List.mem_filter.1 hkb).2
    exact ha.symm.trans hb
  · rw [List.mem_flatMap]
    constructor
    · rintro ⟨type, -, hk⟩
      exact (List.mem_filter.1 hk).1
    · intro hk
      exact ⟨parent k, hparent k hk, List.mem_filter.2 ⟨hk, decide_eq_true rfl⟩⟩

/-- Every row from the first listed one on is listed for one type, once. -/
theorem perm_flatMap_mappedRows {found : List OwnedRow}
    (h : image.assignedRows mapTable table = .ok found) :
    ((List.range' 1 (image.rows Table.typeDef)).flatMap (image.mappedRows mapTable table)).Perm
      (image.rowsFrom table (image.listStart mapTable 1 table 1)) := by
  obtain ⟨⟨ranges, hranges⟩, hparents, -, -⟩ := of_assignedRows h
  -- sorting the map rows by their types loses none, so neither does it lose what they list
  have hperm := perm_flatMap_filter List.nodup_range' List.nodup_range' hparents
  rw [← flatMap_listedRange hranges]
  have hrows := hperm.flatMap_right fun k => (image.listedRange mapTable 1 table k).rows
  rwa [List.flatMap_assoc] at hrows

/-- Events and properties are grouped by the types that the map rows assign them to, and the rows that
associate methods are kept as they are read. -/
theorem assigned_of_membership {members : Membership} (h : image.membership = .ok members) :
    (∃ found, image.assignedRows Table.eventMap Table.event = .ok found ∧
      members.events = groupByOwner (image.rows Table.typeDef) found) ∧
    (∃ found, image.assignedRows Table.propertyMap Table.property = .ok found ∧
      members.properties = groupByOwner (image.rows Table.typeDef) found ∧
      members.propertyOwners = ownersOf (image.rows Table.property) found) ∧
    image.semanticsRows = .ok members.semantics := by
  simp only [membership, bind_eq_ok_iff, pure_eq_ok_iff] at h
  obtain ⟨_, -, _, -, events, hevents, properties, hproperties, _, hsemantics, rfl⟩ := h
  exact ⟨⟨events, hevents, rfl⟩, ⟨properties, hproperties, rfl, rfl⟩, hsemantics⟩

end Lists

section Loaded

variable {data : Bytes} {m : Module} {image : Image} {name : String} {members : Membership}
  {enclosing : Enclosing} {decls : List (Tree TypeDecl)} {row : Nat}

/-! ### Fields and methods -/

/-- The attributes of a flag word of two bytes are its bits but for the low ones. -/
theorem toNat_memberAttributes {flags : Nat} (h : flags < 0x10000) :
    (memberAttributes flags).toNat = flags / 8 * 8 := by
  rw [memberAttributes, withLow, UInt16.toNat_ofNat']
  omega

/-- What is read of a field row is the field of the row. -/
theorem isField_of_fieldDecl (hread : Image.read data = .ok image) {field : FieldDecl}
    (h : image.fieldDecl row = .ok field) : image.IsField row field := by
  obtain ⟨flags, name, access, hflags, hname, haccess, rfl⟩ := fieldDecl_eq_ok_iff.1 h
  have hword := cell_lt_of_word hread (by decide) rfl hflags
  exact ⟨rfl, hname, flags, hflags, Access.bits_of_ofFlags? haccess, toNat_memberAttributes hword⟩

/-- What is read of a method row is the method of the row. -/
theorem isMethod_of_methodDecl (hread : Image.read data = .ok image) {method : MethodDecl}
    (h : image.methodDecl row = .ok method) : image.IsMethod row method := by
  obtain ⟨_, _, flags, name, _, _, access, _, _, -, -, hflags, hname, -, -, haccess, -, -, rfl⟩ :=
    methodDecl_eq_ok_iff.1 h
  have hword := cell_lt_of_word hread (by decide) rfl hflags
  exact ⟨rfl, hname, flags, hflags, Access.bits_of_ofFlags? haccess, toNat_memberAttributes hword⟩

/-- The run of a type row is its list. -/
theorem Runs.eq_listedRange {column target : Nat} {rangeOf : Nat → RowRange}
    (h : image.Runs column target rangeOf) {type : Nat}
    (htype : type ∈ List.range' 1 (image.rows Table.typeDef)) :
    rangeOf type = image.listedRange Table.typeDef column target type :=
  List.map_inj_left.1 (listRanges_eq h) type htype

/-! ### The members of a loaded module -/

/-- Lists that correspond type by type correspond as a whole. -/
theorem forall₂_flatMap_filterMap {α β : Type} {R : α → β → Prop} {types : List Nat}
    {rows : Nat → List α} {get? : Nat → Option TypeDecl} {items : TypeDecl → List β}
    (h : ∀ type ∈ types, ∃ decl, get? type = some decl ∧ List.Forall₂ R (rows type) (items decl)) :
    List.Forall₂ R (types.flatMap rows) ((types.filterMap get?).flatMap items) := by
  induction types with
  | nil => exact .nil
  | cons type types ih =>
    obtain ⟨⟨decl, hdecl, hrows⟩, hothers⟩ := List.forall_mem_cons.1 h
    rw [List.filterMap_cons_some hdecl, List.flatMap_cons, List.flatMap_cons]
    exact List.rel_append hrows (ih hothers)

namespace Loads

/-- The type of an id is what is read of its row, up to its links. -/
theorem exists_typeDecl_of_get? (h : Loads data m image name members enclosing decls) {id type : Nat}
    {decl : TypeDecl} (hid : (preorderAll enclosing.forest)[id]? = some type)
    (hdecl : m.get? id = some decl) :
    type ∈ List.range' 1 (image.rows Table.typeDef) ∧ ∃ read parent ids,
      image.typeDecl members members.accessors type = .ok read ∧ decl = read.linked parent ids := by
  obtain ⟨content, hdecls, hcontent⟩ := h.exists_content
  have htype := h.perm_rows.mem_iff.1 (List.mem_of_getElem? hid)
  obtain ⟨read, hread⟩ := h.exists_typeDecl htype
  have hrow := h.get?_of_row hdecls rfl hid
  rw [hdecl, Option.some.injEq, hcontent type read hread] at hrow
  exact ⟨htype, read, _, _, hread, hrow⟩

/-- The fields of a type are those that its row lists. -/
theorem forall₂_fields (h : Loads data m image name members enclosing decls) {id type : Nat}
    {decl : TypeDecl} (hid : (preorderAll enclosing.forest)[id]? = some type)
    (hdecl : m.get? id = some decl) :
    List.Forall₂ image.IsField (image.listedRange Table.typeDef 4 Table.field type).rows
      decl.fields := by
  obtain ⟨hruns, -⟩ := runs_of_membership h.members_eq
  obtain ⟨htype, read, parent, ids, hread, rfl⟩ := h.exists_typeDecl_of_get? hid hdecl
  obtain ⟨_, _, _, _, _, -, -, -, hfield, -, rfl⟩ := typeDecl_eq_ok_iff.1 hread
  rw [← hruns.eq_listedRange htype]
  exact forall₂_of_mapM hfield fun row field => isField_of_fieldDecl h.image_eq

/-- The methods of a type are those that its row lists. -/
theorem forall₂_methods (h : Loads data m image name members enclosing decls) {id type : Nat}
    {decl : TypeDecl} (hid : (preorderAll enclosing.forest)[id]? = some type)
    (hdecl : m.get? id = some decl) :
    List.Forall₂ image.IsMethod (image.listedRange Table.typeDef 5 Table.methodDef type).rows
      decl.methods := by
  obtain ⟨-, hruns⟩ := runs_of_membership h.members_eq
  obtain ⟨htype, read, parent, ids, hread, rfl⟩ := h.exists_typeDecl_of_get? hid hdecl
  obtain ⟨_, _, _, _, _, -, -, -, -, hmethod, rfl⟩ := typeDecl_eq_ok_iff.1 hread
  rw [← hruns.eq_listedRange htype]
  exact forall₂_of_mapM hmethod fun row method => isMethod_of_methodDecl h.image_eq

/-- The events of a type are those that its map rows list. -/
theorem forall₂_events (h : Loads data m image name members enclosing decls) {id type : Nat}
    {decl : TypeDecl} (hid : (preorderAll enclosing.forest)[id]? = some type)
    (hdecl : m.get? id = some decl) :
    List.Forall₂ (fun row name => image.cellString Table.event row 1 = .ok name)
      (image.mappedRows Table.eventMap Table.event type) decl.events := by
  obtain ⟨⟨events, hevents, hgroups⟩, -, -⟩ := assigned_of_membership h.members_eq
  obtain ⟨htype, read, parent, ids, hread, rfl⟩ := h.exists_typeDecl_of_get? hid hdecl
  obtain ⟨_, _, _, _, _, -, -, -, -, -, rfl⟩ := typeDecl_eq_ok_iff.1 hread
  have hbound := List.mem_range'_1.1 htype
  change List.Forall₂ _ _ ((members.events.getD type []).map OwnedRow.name)
  rw [hgroups]
  exact forall₂_getD_groupByOwner hevents (by omega)

/-- The properties of a type are those that its map rows list. -/
theorem forall₂_properties (h : Loads data m image name members enclosing decls) {id type : Nat}
    {decl : TypeDecl} (hid : (preorderAll enclosing.forest)[id]? = some type)
    (hdecl : m.get? id = some decl) :
    List.Forall₂ (fun row name => image.cellString Table.property row 1 = .ok name)
      (image.mappedRows Table.propertyMap Table.property type)
      (decl.properties.map PropertyDecl.name) := by
  obtain ⟨-, ⟨properties, hproperties, hgroups, -⟩, -⟩ := assigned_of_membership h.members_eq
  obtain ⟨htype, read, parent, ids, hread, rfl⟩ := h.exists_typeDecl_of_get? hid hdecl
  obtain ⟨_, _, _, _, _, -, -, -, -, -, rfl⟩ := typeDecl_eq_ok_iff.1 hread
  have hbound := List.mem_range'_1.1 htype
  -- the accessors are put into the properties, whose names stay as they were read
  change List.Forall₂ _ _ (((members.properties.getD type []).map _).map PropertyDecl.name)
  rw [List.map_map, hgroups]
  exact forall₂_getD_groupByOwner hproperties (by omega)

/-- What corresponds type by type corresponds in the order of the type rows. -/
theorem forall₂_inRowOrder (h : Loads data m image name members enclosing decls) {α β : Type}
    {R : α → β → Prop} {listed : Nat → List α} {items : TypeDecl → List β}
    (hitems : ∀ {id type decl}, (preorderAll enclosing.forest)[id]? = some type →
      m.get? id = some decl → List.Forall₂ R (listed type) (items decl)) :
    List.Forall₂ R ((List.range' 1 (image.rows Table.typeDef)).flatMap listed)
      ((m.inRowOrder (preorderAll enclosing.forest)).flatMap items) := by
  have hlength : (preorderAll enclosing.forest).length = image.rows Table.typeDef := by
    rw [h.perm_rows.length_eq, List.length_range']
  rw [Module.inRowOrder, hlength]
  refine forall₂_flatMap_filterMap fun type htype => ?_
  -- every type row is the row of an id
  obtain ⟨content, hdecls, -⟩ := h.exists_content
  have hid := h.getElem?_idxOf_row rfl (h.typeRows_eq ▸ htype)
  have hdecl := h.get?_of_row hdecls rfl hid
  exact ⟨_, hdecl, hitems hid hdecl⟩

/-- The members of a loaded module are those of the rows of its image. -/
theorem keepsMembers (h : Loads data m image name members enclosing decls) :
    image.KeepsMembers m (preorderAll enclosing.forest) := by
  obtain ⟨hfieldRuns, hmethodRuns⟩ := runs_of_membership h.members_eq
  obtain ⟨⟨events, hevents, -⟩, ⟨properties, hproperties, -⟩, -⟩ :=
    assigned_of_membership h.members_eq
  refine ⟨fun _ _ _ => h.forall₂_fields, fun _ _ _ => h.forall₂_methods,
    fun _ _ _ => h.forall₂_events, fun _ _ _ => h.forall₂_properties, ?_, ?_,
    perm_flatMap_mappedRows hevents, perm_flatMap_mappedRows hproperties⟩
  · rw [← flatMap_listedRange hfieldRuns]
    exact h.forall₂_inRowOrder h.forall₂_fields
  · rw [← flatMap_listedRange hmethodRuns]
    exact h.forall₂_inRowOrder h.forall₂_methods

/-! ### Files that are refused -/

/-- All four lists of members were read, so that their starts are in order and in the table. -/
theorem exists_listRanges (h : Loads data m image name members enclosing decls)
    {table column target : Nat} (hlist : (table, column, target) ∈ memberLists) :
    ∃ ranges, image.listRanges table column target = .ok ranges := by
  obtain ⟨hfieldRuns, hmethodRuns⟩ := runs_of_membership h.members_eq
  obtain ⟨⟨events, hevents, -⟩, ⟨properties, hproperties, -⟩, -⟩ :=
    assigned_of_membership h.members_eq
  simp only [memberLists, List.mem_cons, List.not_mem_nil, or_false, Prod.mk.injEq] at hlist
  rcases hlist with ⟨rfl, rfl, rfl⟩ | ⟨rfl, rfl, rfl⟩ | ⟨rfl, rfl, rfl⟩ | ⟨rfl, rfl, rfl⟩
  · exact ⟨_, hfieldRuns⟩
  · exact ⟨_, hmethodRuns⟩
  · exact (of_assignedRows hevents).1
  · exact (of_assignedRows hproperties).1

/-- The types that the map rows name are there. -/
theorem parent_mem (h : Loads data m image name members enclosing decls) {mapTable k : Nat}
    (hmap : mapTable = Table.eventMap ∨ mapTable = Table.propertyMap)
    (hk : k ∈ List.range' 1 (image.rows mapTable)) :
    image.cellValue mapTable k 0 ∈ List.range' 1 (image.rows Table.typeDef) := by
  obtain ⟨⟨events, hevents, -⟩, ⟨properties, hproperties, -⟩, -⟩ :=
    assigned_of_membership h.members_eq
  rcases hmap with rfl | rfl
  · exact (of_assignedRows hevents).2.1 k hk
  · exact (of_assignedRows hproperties).2.1 k hk

/-- Nothing is wrong with the lists of members of an image that was loaded. -/
theorem not_memberFault (h : Loads data m image name members enclosing decls) :
    ¬ image.MemberFault := by
  -- each fault contradicts one of the bounds
  intro hfault
  cases hfault with
  | zero hlist hcell =>
    obtain ⟨ranges, hranges⟩ := h.exists_listRanges hlist
    obtain ⟨hpos, -, -⟩ := bounds_of_listRanges hranges (mem_range'_of_cell hcell)
    rw [listStart_of_cell hcell] at hpos
    omega
  | decreases hlist hcell hnext hlt =>
    obtain ⟨ranges, hranges⟩ := h.exists_listRanges hlist
    obtain ⟨-, hle, -⟩ := bounds_of_listRanges hranges (mem_range'_of_cell hcell)
    rw [listStart_of_cell hcell, listStart_of_cell hnext] at hle
    omega
  | exceeds hlist hcell hlt =>
    obtain ⟨ranges, hranges⟩ := h.exists_listRanges hlist
    obtain ⟨-, hle, hstop⟩ := bounds_of_listRanges hranges (mem_range'_of_cell hcell)
    rw [listStart_of_cell hcell] at hle
    omega
  | badParent hmap hcell hbad =>
    have hbound := List.mem_range'_1.1 (h.parent_mem hmap (mem_range'_of_cell hcell))
    rw [cellValue_of_cell hcell] at hbound
    omega

end Loads

end Loaded

/-- The types of a loaded module have the fields and methods that their rows list, and the events and
properties that their map rows list, in order; and all listed members are there, once. A file is
refused if one of the four list columns holds a 0, a start before the one of the row before, or a start
more than one row behind the last row, or if a map row names a type row that is not there. -/
theorem load_members (data : Bytes) :
    (∀ m, load data = .ok m → ∃ image rows, Image.read data = .ok image ∧
      image.Rebuilds m rows ∧ image.KeepsMembers m rows) ∧
    ∀ image, Image.read data = .ok image → image.MemberFault →
      ∃ fault, load data = .error fault := by
  constructor
  · intro m hm
    obtain ⟨image, name, members, enclosing, decls, h⟩ := load_eq_ok_iff.1 hm
    exact ⟨image, _, h.image_eq, h.rebuilds, h.keepsMembers⟩
  · intro image hread hfault
    cases hload : load data with
    | error fault => exact ⟨fault, rfl⟩
    | ok m =>
      obtain ⟨image', name, members, enclosing, decls, h⟩ := load_eq_ok_iff.1 hload
      cases hread.symm.trans h.image_eq
      exact absurd hfault h.not_memberFault

/-- An image with the headers of the small image. Its first type has a field, two methods and two
properties, its second type a field, a method and two events that two map rows list. Of the four rows
that associate methods with properties the third one names the method of the second type. -/
def memberImage : Bytes :=
  let zeros (n : Nat) : List UInt8 := List.replicate n 0
  let tableHeader := zeros 8 ++ [0x54, 0, 0xB4, 1, 0, 0, 0, 0] ++ zeros 8 ++
    [2, 0, 0, 0, 2, 0, 0, 0, 3, 0, 0, 0, 2, 0, 0, 0] ++
    [2, 0, 0, 0, 1, 0, 0, 0, 2, 0, 0, 0, 4, 0, 0, 0]
  let types := [0, 1, 0, 0, 0, 0, 0, 0, 0, 0, 1, 0, 1, 0] ++
    [1, 1, 0, 0, 0, 0, 0, 0, 0, 0, 2, 0, 3, 0]
  let fields := [0x11, 0, 0, 0, 0, 0] ++ [0x16, 0, 0, 0, 0, 0]
  let method := zeros 6 ++ [0x93, 0, 0, 0, 1, 0, 1, 0]
  let eventMap := [2, 0, 1, 0] ++ [2, 0, 2, 0]
  let propertyMap := [1, 0, 1, 0]
  let semantics := [2, 0, 1, 0, 3, 0] ++ [2, 0, 2, 0, 3, 0] ++ [2, 0, 3, 0, 3, 0] ++
    [1, 0, 1, 0, 5, 0]
  let blobs := [0, 3, 0, 0, 1, 0, 0, 0]
  -- the table stream is larger here, and the blob heap begins further behind
  let headers := ((smallImage.toList.take 404).set 380 0xC6).set 388 0xF6
  (headers ++ tableHeader ++ types ++ fields ++ method ++ method ++ method ++ eventMap ++ zeros 12 ++
    propertyMap ++ zeros 12 ++ semantics ++ blobs).toArray

/-- The image with members, but its first event map row names a seventh type. -/
def orphanImage : Bytes :=
  memberImage.setIfInBounds 542 7

/-- The image with members holds a module. The first property of its first type can be read, and the
second one can be written. -/
theorem exists_load_memberImage : ∃ m, load memberImage = .ok m ∧
    (m.get? 0).map (fun decl => decl.properties.map PropertyDecl.getter) = some [some 1, none] ∧
    (m.get? 0).map (fun decl => decl.properties.map PropertyDecl.setter) = some [none, some 0] := by
  have htry : okAnd (fun m : Module => decide (
      (m.get? 0).map (fun decl => decl.properties.map PropertyDecl.getter) = some [some 1, none] ∧
      (m.get? 0).map (fun decl => decl.properties.map PropertyDecl.setter) =
        some [none, some 0])) (load memberImage) = true := by
    decide +kernel
  obtain ⟨m, hload, hplaces⟩ := okAnd_eq_true_iff.1 htry
  exact ⟨m, hload, of_decide_eq_true hplaces⟩

/-- The image with members is loaded with all of them. Where an event map row names a type row that is
not there, the file is refused. -/
theorem load_members_memberImage :
    (∃ (image : Image) (rows : List Nat) (m : Module), load memberImage = .ok m ∧
      image.KeepsMembers m rows) ∧
      ∃ (image : Image) (fault : Fault), Image.read orphanImage = .ok image ∧ image.MemberFault ∧
        load orphanImage = .error fault := by
  constructor
  · obtain ⟨m, hload, -⟩ := exists_load_memberImage
    obtain ⟨image, rows, -, -, hkeeps⟩ := (load_members memberImage).1 m hload
    exact ⟨image, rows, m, hload, hkeeps⟩
  · have htry : okAnd (fun image => decide (image.cell Table.eventMap 1 0 = .ok 7 ∧
        image.rows Table.typeDef = 2)) (Image.read orphanImage) = true := by
      decide +kernel
    obtain ⟨image, hread, hcells⟩ := okAnd_eq_true_iff.1 htry
    obtain ⟨hcell, htypes⟩ := of_decide_eq_true hcells
    have hfault : image.MemberFault := .badParent (.inl rfl) hcell (.inr (by omega))
    obtain ⟨fault, hload⟩ := (load_members orphanImage).2 image hread hfault
    exact ⟨image, fault, hread, hfault, hload⟩

end Image

end PublicAssembly
