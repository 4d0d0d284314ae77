import PublicAssembly.Document.OfJson
import PublicAssembly.Proofs.Document.Promotion
import PublicAssembly.Proofs.Json.Depth

/-!
# Documents that are written and read again

A document that was written is read back exactly if it is not nested too deep
(`Document.decode_inverts`). A document that was read can be written deeper than it was: a list of a
type may be missing, and an empty one is written. So a reader that finds types on every level it can
look at reads a document that it cannot read again, and finds one on fewer levels only in documents
that it can (`Document.levels_of_ofJson`).

## Main definitions

* `Document.levels`: on how many levels a document has types;
* `Document.ReadsDocuments`: what is relied on of a way to read documents.
-/

namespace PublicAssembly

open Json (Decoder depthOfItems ofMembers ofText)
open Json.Decoder

/-! ### Methods -/

/-- The code of a method is a list in a record. -/
@[simp]
theorem MethodBody.depth_toJson (body : MethodBody) : body.toJson.depth = 2 := by
  have hcode : depthOfItems (body.code.toList.map fun b => .ofNat b.toNat) = 0 :=
    Nat.le_zero.1 (Json.depthOfItems_le_iff.2 (by simp))
  simp [toJson, depthOfItems, hcode]

theorem MethodBody.decode_inverts : Decoder.Inverts decode toJson := by
  refine .of_container (by simp) (fun _ => rfl) fun room body other => ?_
  have hfields : fields? ["rva", "code"] body.toJson =
      some [some (.ofNat body.rva.toNat),
        some (.array (body.code.toList.map fun b => .ofNat b.toNat))] := rfl
  have hcode (found : List UInt8) :=
    (Inverts.of_scalar (fun _ => Json.depth_ofNat _) byte_ofNat).list room body.code.toList found
  have hdepth : (Json.array (body.code.toList.map fun b => .ofNat b.toNat)).depth + 1 = 2 := by
    have := body.depth_toJson
    rw [toJson, Json.depth_ofMembers] at this
    simpa [depthOfItems] using this
  -- the list of bytes is read with one level less than there is room for
  rw [decode, hfields, depth_toJson, ← hdepth, Nat.add_le_add_iff_right]
  simp only [orElse, required, doubleWord_ofNat, Option.bind_eq_bind, Option.bind_some,
    Option.bind_eq_some_iff, hcode, Option.pure_def, Option.some.injEq]
  constructor
  · rintro ⟨found, ⟨hroom, rfl⟩, rfl⟩
    exact ⟨hroom, by simp⟩
  · rintro ⟨hroom, rfl⟩
    exact ⟨_, ⟨hroom, rfl⟩, by simp⟩

theorem MethodBody.decode_fits : Decoder.Fits decode toJson := by
  intro room json body h
  rw [depth_toJson]
  -- the code must be given, so the reader looked as deep as it is written
  match room with
  | 0 => cases h
  | 1 =>
    rw [decode] at h
    split at h
    · simp [required_list_zero] at h
    · cases h
  | room + 2 => omega

/-- How deep the code of a method is nested, if it has any. -/
theorem MethodEntry.depth_toJson (entry : MethodEntry) :
    entry.toJson.depth = (Json.ofOption MethodBody.toJson entry.body).depth + 1 := by
  simp [toJson, depthOfItems]

theorem MethodEntry.decode_inverts : Decoder.Inverts decode toJson := by
  refine .of_container (by simp [depth_toJson]) (fun _ => rfl) fun room entry other => ?_
  have hfields : fields? ["name", "access", "attributes", "impl_attributes", "return_type", "body"]
      entry.toJson = some [some (ofText entry.name), some (ofText entry.access.key),
        some (.ofNat entry.attributes.toNat), some (.ofNat entry.implAttributes.toNat),
        some (ofText entry.returnType), some (.ofOption MethodBody.toJson entry.body)] := rfl
  have hbody (found : Option MethodBody) :=
    MethodBody.decode_inverts.optional (fun _ => nofun) room entry.body found
  -- the texts and numbers are read in any case, so that the body alone decides
  rw [decode, hfields, depth_toJson, Nat.add_le_add_iff_right]
  simp only [orElse, required, text_ofText, keyword_ofText, Access.ofKey?_key, word_ofNat,
    Option.bind_eq_bind, Option.bind_some, Option.bind_eq_some_iff, hbody, Option.pure_def,
    Option.some.injEq]
  constructor
  · rintro ⟨found, ⟨hroom, rfl⟩, rfl⟩
    exact ⟨hroom, rfl⟩
  · rintro ⟨hroom, rfl⟩
    exact ⟨_, ⟨hroom, rfl⟩, rfl⟩

theorem MethodEntry.decode_fits : Decoder.Fits decode toJson := by
  intro room json entry h
  match room with
  | 0 => cases h
  | room + 1 =>
    rw [decode] at h
    split at h
    · simp only [Option.bind_eq_bind, Option.bind_eq_some_iff, Option.pure_def,
        Option.some.injEq] at h
      obtain ⟨name, -, access, -, attributes, -, impl, -, type, -, body, hbody, rfl⟩ := h
      rw [depth_toJson, Nat.add_le_add_iff_right]
      exact MethodBody.decode_fits.orElse_optional hbody
    · cases h

/-! ### Fields, properties and events -/

@[simp]
theorem FieldEntry.depth_toJson (entry : FieldEntry) : entry.toJson.depth = 1 := by
  simp [toJson, depthOfItems]

theorem FieldEntry.decode_inverts : Decoder.Inverts decode toJson := by
  refine .of_container (by simp) (fun _ => rfl) fun room entry other => ?_
  have hfields : fields? ["name", "access", "attributes"] entry.toJson =
      some [some (ofText entry.name), some (ofText entry.access.key),
        some (.ofNat entry.attributes.toNat)] := rfl
  rw [decode, hfields, depth_toJson]
  simp [orElse, required, Access.ofKey?_key]

theorem FieldEntry.decode_fits : Decoder.Fits decode toJson :=
  .of_record depth_toJson fun _ => rfl

/-- The name of an accessor is written without a container. -/
@[simp]
theorem PropertyEntry.depth_accessor (accessor : Option String) :
    (Json.ofOption ofText accessor).depth = 0 := by
  cases accessor
  · simp [Json.ofOption, Json.depth]
  · simp [Json.ofOption]

@[simp]
theorem PropertyEntry.depth_toJson (entry : PropertyEntry) : entry.toJson.depth = 1 := by
  simp [toJson, depthOfItems]

theorem PropertyEntry.decode_inverts : Decoder.Inverts decode toJson := by
  refine .of_container (by simp) (fun _ => rfl) fun room entry other => ?_
  have hfields : fields? ["name", "getter", "setter"] entry.toJson =
      some [some (ofText entry.name), some (.ofOption ofText entry.getter),
        some (.ofOption ofText entry.setter)] := rfl
  have haccessor (accessor found : Option String) :
      optional text room (.ofOption ofText accessor) = some found ↔ accessor = found := by
    simpa using (Inverts.of_scalar Json.depth_ofText text_ofText).optional (fun _ => nofun) room
      accessor found
  rw [decode, hfields, depth_toJson]
  simp [orElse, required, Option.bind_eq_some_iff, haccessor]

theorem PropertyEntry.decode_fits : Decoder.Fits decode toJson :=
  .of_record depth_toJson fun _ => rfl

@[simp]
theorem depth_eventToJson (name : String) : (eventToJson name).depth = 1 := by
  simp [eventToJson, depthOfItems]

theorem decodeEvent_inverts : Decoder.Inverts decodeEvent eventToJson := by
  refine .of_container (by simp) (fun _ => rfl) fun room name other => ?_
  have hfields : fields? ["name"] (eventToJson name) = some [some (ofText name)] := rfl
  rw [decodeEvent, hfields, depth_eventToJson]
  simp [required]

theorem decodeEvent_fits : Decoder.Fits decodeEvent eventToJson :=
  .of_record depth_eventToJson fun _ => rfl

/-! ### Types -/

namespace TypeEntry

open PublicAssembly.Tree (heightAll)

/-- How deep the members of a type are nested. -/
def memberDepth (entry : TypeEntry) : Nat :=
  max (depthOfItems (entry.methods.map MethodEntry.toJson))
    (max (depthOfItems (entry.fields.map FieldEntry.toJson))
      (max (depthOfItems (entry.properties.map PropertyEntry.toJson))
        (depthOfItems (entry.events.map eventToJson))))

/-- The lists of a type are written even if they are empty. -/
theorem depth_members (entry : TypeEntry) (nested : List Json) :
    (ofMembers (entry.members nested)).depth =
      max entry.memberDepth (depthOfItems nested) + 2 := by
  rw [Json.depth_ofMembers, members, memberDepth]
  split <;> simp [depthOfItems]

/-- The namespace is written unless it is empty. -/
def namespaceField (entry : TypeEntry) : Option Json :=
  if entry.namespaceName.isEmpty then none else some (ofText entry.namespaceName)

/-- The fields of a type that was written are found again under their names. -/
theorem fields?_members (entry : TypeEntry) (nested : List Json) :
    fields? keys (ofMembers (entry.members nested)) =
      some [some (ofText entry.name), entry.namespaceField,
        some (ofText entry.visibility.key), some (.ofNat entry.attributes.toNat),
        some (.array (entry.methods.map MethodEntry.toJson)),
        some (.array (entry.fields.map FieldEntry.toJson)),
        some (.array (entry.properties.map PropertyEntry.toJson)),
        some (.array (entry.events.map eventToJson)), some (.array nested)] := by
  rw [members, namespaceField]
  split <;> rfl

/-- A namespace that was left out is read as the empty one. -/
theorem orElse_namespaceField (entry : TypeEntry) (room : Nat) :
    orElse text "" room entry.namespaceField = some entry.namespaceName := by
  rw [namespaceField]
  split
  · next hempty => rw [String.isEmpty_iff.1 hempty, orElse]
  · rfl

/-- There is room for all members exactly if there is room for the deepest of them. -/
theorem memberDepth_max_le_iff (entry : TypeEntry) (depth room : Nat) :
    max entry.memberDepth depth ≤ room ↔
      depthOfItems (entry.methods.map MethodEntry.toJson) ≤ room ∧
      depthOfItems (entry.fields.map FieldEntry.toJson) ≤ room ∧
      depthOfItems (entry.properties.map PropertyEntry.toJson) ≤ room ∧
      depthOfItems (entry.events.map eventToJson) ≤ room ∧ depth ≤ room := by
  rw [memberDepth]
  omega

/-- A type that was written is read back if the types nested in it are, and if it is not nested too
deep. -/
theorem decode_members {entry : TypeEntry} {children : List (Tree TypeEntry)} {nested : List Json}
    (hnested : ∀ room others, nested.mapM (decode room) = some others ↔
      depthOfItems nested ≤ room ∧ children = others) (room : Nat) (other : Tree TypeEntry) :
    decode room (ofMembers (entry.members nested)) = some other ↔
      (ofMembers (entry.members nested)).depth ≤ room ∧ .node entry children = other := by
  rw [depth_members]
  rcases room with _ | _ | room
  · exact iff_of_false (fun h => by cases h) (by omega)
  · -- there is no room for the first list
    have hnone (methods : List Json) :
        orElse (list MethodEntry.decode) [] 0 (some (.array methods)) = none := rfl
    rw [Nat.zero_add, decode, fields?_members]
    simp [hnone]
  · -- all members are read with the room behind the containers of the type and of its lists
    have hmethods := MethodEntry.decode_inverts.list (room + 1) entry.methods
    have hfieldList := FieldEntry.decode_inverts.list (room + 1) entry.fields
    have hproperties := PropertyEntry.decode_inverts.list (room + 1) entry.properties
    have hevents := decodeEvent_inverts.list (room + 1) entry.events
    simp only [Json.depth_array, Nat.add_le_add_iff_right] at hmethods hfieldList hproperties hevents
    rw [decode, fields?_members, show room + 1 + 1 = room + 2 by rfl, Nat.add_le_add_iff_right,
      memberDepth_max_le_iff]
    simp only [orElse_namespaceField]
    simp only [orElse, required, text_ofText, keyword_ofText, Visibility.ofKey?_key,
      doubleWord_ofNat, Option.bind_eq_bind, Option.bind_some, Option.bind_eq_some_iff,
      hmethods, hfieldList, hproperties, hevents, hnested, Option.pure_def, Option.some.injEq]
    constructor
    · rintro ⟨_, ⟨h₁, rfl⟩, _, ⟨h₂, rfl⟩, _, ⟨h₃, rfl⟩, _, ⟨h₄, rfl⟩, _, ⟨h₅, rfl⟩, rfl⟩
      exact ⟨⟨h₁, h₂, h₃, h₄, h₅⟩, rfl⟩
    · rintro ⟨⟨h₁, h₂, h₃, h₄, h₅⟩, rfl⟩
      exact ⟨_, ⟨h₁, rfl⟩, _, ⟨h₂, rfl⟩, _, ⟨h₃, rfl⟩, _, ⟨h₄, rfl⟩, _, ⟨h₅, rfl⟩, rfl⟩

/-- Types that were written are read back exactly if they are not nested too deep. -/
theorem mapM_decode_treesToJson (trees : List (Tree TypeEntry)) (room : Nat)
    (others : List (Tree TypeEntry)) :
    (treesToJson trees).mapM (decode room) = some others ↔
      depthOfItems (treesToJson trees) ≤ room ∧ trees = others := by
  induction trees using Tree.forest_induction generalizing room others with
  | nil => simp [treesToJson, depthOfItems, eq_comm]
  | cons entry children rest ihc ihr =>
    -- the types nested in the first one and those behind it are read by themselves
    simp only [treesToJson, treeToJson, List.mapM_cons, Option.bind_eq_bind,
      Option.bind_eq_some_iff, Option.pure_def, Option.some.injEq, decode_members ihc, ihr,
      depthOfItems, Nat.max_le]
    constructor
    · rintro ⟨_, ⟨hfirst, rfl⟩, _, ⟨hrest, rfl⟩, rfl⟩
      exact ⟨⟨hfirst, hrest⟩, rfl⟩
    · rintro ⟨⟨hfirst, hrest⟩, rfl⟩
      exact ⟨_, ⟨hfirst, rfl⟩, _, ⟨hrest, rfl⟩, rfl⟩

/-- A type that was read can be written as deep as the reader looked into it, apart from the types
nested in it, which the reader looked for two containers further down. -/
theorem of_decode {room : Nat} {json : Json} {entry : TypeEntry} {children : List (Tree TypeEntry)}
    (h : decode (room + 1) json = some (.node entry children)) :
    entry.memberDepth ≤ room - 1 ∧
      (children = [] ∨ 0 < room ∧
        ∃ items : List Json, items.mapM (decode (room - 1)) = some children) := by
  rw [decode] at h
  split at h
  case h_2 => cases h
  case h_1 nested _ =>
    simp only [Option.bind_eq_bind, Option.bind_eq_some_iff] at h
    obtain ⟨name, -, namespaceName, -, visibility, -, attributes, -, methods, hmethods, fields,
      hfields, properties, hproperties, events, hevents, h⟩ := h
    -- each list of members was read with the room behind it
    have hmembers : ({
        name, namespaceName, visibility, attributes, methods, fields, properties, events } :
          TypeEntry).memberDepth ≤ room - 1 := by
      simp only [memberDepth, Nat.max_le, Json.depthOfItems_le_iff, List.forall_mem_map]
      exact ⟨MethodEntry.decode_fits.orElse_list hmethods,
        FieldEntry.decode_fits.orElse_list hfields,
        PropertyEntry.decode_fits.orElse_list hproperties,
        decodeEvent_fits.orElse_list hevents⟩
    split at h
    · cases h
      exact ⟨hmembers, .inl rfl⟩
    · next items inner _ =>
      obtain ⟨found, hfound, hnode⟩ := Option.bind_eq_some_iff.1 h
      cases hnode
      exact ⟨hmembers, .inr ⟨Nat.succ_pos inner, items, hfound⟩⟩
    · cases h

/-- How high types stand that were read, and how deep they are written. The reader looks two
containers further down for each level, and the last one has an empty list more when it is
written. -/
theorem height_of_mapM_decode {trees : List (Tree TypeEntry)} {room : Nat} {items : List Json}
    (h : items.mapM (decode room) = some trees) :
    2 * heightAll trees ≤ room + 1 ∧
      (depthOfItems (treesToJson trees) ≤ room ↔ 2 * heightAll trees ≤ room) := by
  -- along the trees, since the reader looks into the types nested in one before those behind it
  induction trees using Tree.forest_induction generalizing room items with
  | nil => simp [treesToJson, depthOfItems]
  | cons entry children rest ihc ihr =>
    cases items with
    | nil => cases h
    | cons item items =>
      simp only [List.mapM_cons, Option.bind_eq_bind, Option.bind_eq_some_iff, Option.pure_def,
        Option.some.injEq] at h
      obtain ⟨_, hfirst, _, hrest, heq⟩ := h
      obtain ⟨rfl, rfl⟩ := List.cons.inj heq
      obtain ⟨hheight, hdepth⟩ := ihr hrest
      -- a type cannot be read without room, and with some its nested types have two levels less
      cases room with
      | zero => cases hfirst
      | succ room =>
        obtain ⟨hmembers, hchildren⟩ := of_decode hfirst
        rw [Tree.heightAll_node_cons, treesToJson, treeToJson, depthOfItems, depth_members]
        rcases hchildren with rfl | ⟨hroom, nested, hnested⟩
        · rw [Tree.heightAll_nil, treesToJson, depthOfItems]
          omega
        · obtain ⟨hheights, hdepths⟩ := ihc hnested
          omega

end TypeEntry

/-! ### Documents -/

namespace Document

/-- On how many levels a document has types. -/
def levels (document : Document) : Nat :=
  Tree.heightAll document.types

/-- The types of a document are a list in a record. -/
theorem depth_toJson (document : Document) :
    document.toJson.depth = depthOfItems (TypeEntry.treesToJson document.types) + 2 := by
  simp [toJson, depthOfItems]

/-- A document that was written is read back exactly if it is not nested too deep. -/
theorem ofJson_toJson (document other : Document) :
    ofJson? document.toJson = some other ↔ document.toJson.depth ≤ maxDepth ∧ document = other := by
  have hfields : fields? ["name", "types"] document.toJson =
      some [some (ofText document.name),
        some (.array (TypeEntry.treesToJson document.types))] := rfl
  have htypes (found : List (Tree TypeEntry)) :
      orElse (list TypeEntry.decode) [] 126
        (some (.array (TypeEntry.treesToJson document.types))) = some found ↔
        depthOfItems (TypeEntry.treesToJson document.types) ≤ 125 ∧ document.types = found :=
    TypeEntry.mapM_decode_treesToJson document.types 125 found
  -- the document and its list take two of the levels
  rw [ofJson?, maxDepth, decode, hfields, depth_toJson]
  simp only [required, text_ofText, Option.bind_eq_bind, Option.bind_some, Option.bind_eq_some_iff,
    htypes, Option.pure_def, Option.some.injEq]
  constructor
  · rintro ⟨found, ⟨hroom, rfl⟩, rfl⟩
    exact ⟨by omega, rfl⟩
  · rintro ⟨hroom, rfl⟩
    exact ⟨_, ⟨by omega, rfl⟩, rfl⟩

/-- A document that can be read has types on 63 levels at most, and is written no deeper than can be
read exactly if it has types on 62 levels at most. -/
theorem levels_of_ofJson {json : Json} {document : Document} (h : ofJson? json = some document) :
    document.levels ≤ 63 ∧ (document.toJson.depth ≤ maxDepth ↔ document.levels ≤ 62) := by
  rw [ofJson?, maxDepth, decode] at h
  split at h
  case h_2 => cases h
  case h_1 types _ =>
    simp only [Option.bind_eq_bind, Option.bind_eq_some_iff, Option.pure_def,
      Option.some.injEq] at h
    obtain ⟨name, -, trees, htrees, rfl⟩ := h
    rw [depth_toJson, levels, maxDepth]
    -- the types that were read are those of a list of items, or there are none
    obtain ⟨items, hitems⟩ := exists_mapM_of_orElse_list htrees
    have := TypeEntry.height_of_mapM_decode hitems
    dsimp only
    omega

/-- What is relied on of a way to read documents from texts. A document that was written is read back
as itself if it is nested at most `maxDepth` deep, and refused if it is nested deeper; and a document
is read only if its types could be looked for at that depth. -/
structure ReadsDocuments {ε : Type} (read : String → Except ε Document) : Prop where
  /-- What was written is read back exactly if it is not nested too deep. -/
  read_render : ∀ document other : Document, read document.render = .ok other ↔
    document.toJson.depth ≤ maxDepth ∧ document = other
  /-- What was read has types on 63 levels at most, and can be written to be read again if it has
  types on 62 levels at most. -/
  levels_of_read : ∀ (text : String) (document : Document), read text = .ok document →
    document.levels ≤ 63 ∧ (document.toJson.depth ≤ maxDepth ↔ document.levels ≤ 62)

end Document

end PublicAssembly
