import PublicAssembly.Proofs.Batch.Publication
import PublicAssembly.Proofs.Document.Reading
import PublicAssembly.Proofs.Document.RoundTrip
import PublicAssembly.Proofs.Json.RoundTrip
import PublicAssembly.Proofs.Promotion.Again

/-!
# Publishing the copy of a document

The copy of a document has the module that was written to it, so a copy that is read is published as
itself. It is read exactly if the document has types on 62 levels at most; a type on the 63rd level
can be read if its lists are missing, but the copy writes them out and is nested too deep.

## Main statements

* `Document.toModule_publicized`: a document that was made public has the module that was made
  public;
* `Format.readsDocuments_documentOfText`: which documents are read back;
* `Publication.publish_copy`: what becomes of the copy of a document;
* `Publication.not_publish_copy_deepJson`: a document whose copy cannot be read.
-/

namespace PublicAssembly

open Json (depthOfItems ofText)
open Json.Decoder
open Reading
open PublicAssembly.Tree (traverseAll mapNestedAll)

/-! ### Entries that were made public -/

namespace TypeEntry

/-- Accessors are found in a type that was made public where they were found before. -/
theorem propertyDecl_publicized (kept : List String) (strip nested : Bool) (entry : TypeEntry) :
    propertyDecl (entry.publicized kept strip nested).declWithoutProperties =
      propertyDecl entry.declWithoutProperties := by
  -- a method has the same name after it was made public
  have hfind (name : String) :
      (entry.publicized kept strip nested).declWithoutProperties.findMethod? name =
        entry.declWithoutProperties.findMethod? name := by
    simp [TypeDecl.findMethod?, declWithoutProperties, publicized, Function.comp_def,
      MethodEntry.toDecl, MethodEntry.publicized]
  have haccessor (property : String) (accessor : Option String) :
      findAccessor (entry.publicized kept strip nested).declWithoutProperties property accessor =
        findAccessor entry.declWithoutProperties property accessor := by
    cases accessor with
    | none => rfl
    | some name =>
      rw [findAccessor, findAccessor, hfind]
      rfl
  funext property
  rw [propertyDecl, propertyDecl, haccessor, haccessor]

/-- An entry that was made public describes the type that was made public. -/
theorem toDecl_publicized {guard : Guard} {kept : List String}
    (hguard : ∀ name, guard.keeps name = true ↔ name ∈ kept) {entry : TypeEntry}
    {decl : TypeDecl} (h : entry.toDecl = .ok decl) (strip nested : Bool) :
    (entry.publicized kept strip nested).toDecl =
      .ok ((decl.publicized guard nested).strippedIf strip) := by
  simp only [toDecl, bind_eq_ok_iff, pure_eq_ok_iff] at h
  obtain ⟨properties, hproperties, rfl⟩ := h
  have hmethod (method : MethodEntry) :
      (method.publicized strip).toDecl = method.toDecl.promote.strippedIf strip := by
    cases strip <;> rfl
  have hfield (field : FieldEntry) :
      (field.publicized kept).toDecl = field.toDecl.publicized guard := by
    by_cases hkept : field.name ∈ kept
    · rw [FieldEntry.publicized, if_pos hkept, FieldDecl.publicized]
      exact (if_pos ((hguard field.name).2 hkept)).symm
    · rw [FieldEntry.publicized, if_neg hkept, FieldDecl.publicized]
      exact (if_neg (mt (hguard field.name).1 hkept)).symm
  -- accessors are looked up by the names of methods, and these stay
  have hfound : (entry.publicized kept strip nested).properties.mapM
      (propertyDecl (entry.publicized kept strip nested).declWithoutProperties) =
        .ok properties := by
    rw [propertyDecl_publicized]
    exact hproperties
  rw [toDecl, hfound, ok_bind, pure_eq_ok_iff]
  simp [declWithoutProperties, publicized, TypeDecl.publicized, TypeDecl.strippedIf,
    Function.comp_def, hmethod, hfield]

/-- A type that was made public is written as deep as before. -/
theorem memberDepth_publicized (kept : List String) (strip nested : Bool) (entry : TypeEntry) :
    (entry.publicized kept strip nested).memberDepth = entry.memberDepth := by
  have hmethod (method : MethodEntry) :
      (method.publicized strip).toJson.depth = method.toJson.depth := by
    -- a body that is emptied is still a body
    rw [MethodEntry.depth_toJson, MethodEntry.depth_toJson, MethodEntry.publicized]
    cases method.body <;> cases strip <;> simp [Json.ofOption]
  simp only [memberDepth, publicized, List.map_map]
  rw [Json.depthOfItems_map_congr (f := MethodEntry.toJson ∘ MethodEntry.publicized strip)
      (g := MethodEntry.toJson) fun method _ => hmethod method,
    Json.depthOfItems_map_congr (f := FieldEntry.toJson ∘ FieldEntry.publicized kept)
      (g := FieldEntry.toJson) fun field _ => by simp]

/-- Types that were made public are written as deep as before. -/
theorem depth_treesToJson_publicized (kept : List String) (strip nested : Bool)
    (trees : List (Tree TypeEntry)) :
    depthOfItems (treesToJson (mapNestedAll (publicized kept strip) nested trees)) =
      depthOfItems (treesToJson trees) := by
  induction trees using Tree.forest_induction generalizing nested with
  | nil => rw [Tree.mapNestedAll_nil]
  | cons entry children rest ihc ihr =>
    rw [Tree.mapNestedAll_node_cons, treesToJson, treesToJson, depthOfItems, depthOfItems, ihr,
      treeToJson, treeToJson, depth_members, depth_members, ihc, memberDepth_publicized]

end TypeEntry

namespace Document

@[simp]
theorem depth_publicized (settings : PromotionSettings) (document : Document) :
    (document.publicized settings).toJson.depth = document.toJson.depth := by
  rw [depth_toJson, depth_toJson, publicized]
  dsimp only
  rw [TypeEntry.depth_treesToJson_publicized]

/-- A document that was made public has the module that was made public. -/
theorem toModule_publicized {document : Document} {m : Module} (h : document.toModule = .ok m)
    (settings : PromotionSettings) :
    (document.publicized settings).toModule = .ok (Publication.prepare settings m).module := by
  obtain ⟨decls, hdecls, rfl⟩ := toModule_eq_ok_iff.1 h
  have hguard := keeps_guardOf hdecls settings
  rw [Publication.module_prepare_ofTrees]
  refine toModule_eq_ok_iff.2 ⟨_, Tree.traverseAll_mapNestedAll ?_ hdecls false, rfl⟩
  intro nested entry decl hentry
  exact TypeEntry.toDecl_publicized hguard hentry settings.stripBodies nested

end Document

/-! ### Texts and files -/

namespace Format

/-- What it takes for a text to be a document. -/
theorem documentOfText_eq_ok_iff {text : String} {document : Document} :
    documentOfText text = .ok document ↔
      ∃ json, Json.read text.toList = .ok json ∧ Document.ofJson? json = some document := by
  rw [documentOfText, bind_eq_ok_iff]
  refine exists_congr fun json => and_congr_right fun _ => ?_
  cases Document.ofJson? json with
  | none => exact iff_of_false nofun nofun
  | some found => simp

/-- The text of a document is that document exactly if it is not nested too deep, and no text is read
deeper than that. -/
theorem readsDocuments_documentOfText : Document.ReadsDocuments documentOfText where
  read_render document other := by
    have hread (json : Json) :
        Json.read document.render.toList = .ok json ↔ document.toJson = json := by
      rw [Document.render, Json.render, String.toList_ofList, Json.read_write, Except.ok.injEq]
    simp only [documentOfText_eq_ok_iff, hread, exists_eq_left', Document.ofJson_toJson]
  levels_of_read text document h := by
    obtain ⟨json, -, hjson⟩ := documentOfText_eq_ok_iff.1 h
    exact Document.levels_of_ofJson hjson

/-- What it takes for a file to hold the module of a document. -/
theorem decode_json_eq_ok_iff {path : Path} {content : Bytes} {m : Module} :
    json.decode path content = .ok m ↔
      ∃ text document, String.fromUTF8? ⟨content⟩ = some text ∧
        documentOfText text = .ok document ∧ document.toModule = .ok m := by
  rw [decode]
  cases String.fromUTF8? ⟨content⟩ with
  | none => simp
  | some text => simp [bind_eq_ok_iff, mapError_eq_ok_iff]

end Format

/-- A text is read from its bytes. -/
theorem fromUTF8_toUTF8 (text : String) : String.fromUTF8? ⟨text.toUTF8.data⟩ = some text := by
  rw [String.fromUTF8?, String.toUTF8_eq_toByteArray, dif_pos text.isValidUTF8]
  rfl

/-! ### Documents as files -/

namespace Document

/-- A document with a hidden type that has a hidden method with code and the field of an event. -/
def hiddenSample : Document where
  name := "Sample"
  types := [.node
    { name := "Holder"
      visibility := .notPublic
      methods := [{ name := "Run", access := .privateMember, body := some ⟨0, #[0x2a]⟩ }]
      fields := [{ name := "Changed", access := .privateMember }]
      events := ["Changed"] } []]

/-- Types that are nested in one another, written with nothing that may be missing. -/
def chainJson (visibility : Visibility) : Nat → Json
  | 0 => .ofMembers [("name", ofText "T"), ("visibility", ofText visibility.key)]
  | n + 1 => .ofMembers [("name", ofText "T"), ("visibility", ofText visibility.key),
      ("nested_types", .array [chainJson .nestedPublic n])]

/-- Types that are nested in one another. -/
def chainTree (visibility : Visibility) : Nat → Tree TypeEntry
  | 0 => .node { name := "T", visibility } []
  | n + 1 => .node { name := "T", visibility } [chainTree .nestedPublic n]

/-- A document with types that are nested in one another, written with nothing that may be
missing. -/
def deepJson (n : Nat) : Json :=
  .ofMembers [("name", ofText "Deep"), ("types", .array [chainJson .publicType n])]

/-- A document with types that are nested in one another. -/
def deepDocument (n : Nat) : Document :=
  ⟨"Deep", [chainTree .publicType n]⟩

/-- Each type of a chain is read two containers below the one around it. -/
theorem decode_chainJson (visibility : Visibility) (n : Nat) :
    TypeEntry.decode (2 * n + 1) (chainJson visibility n) = some (chainTree visibility n) := by
  induction n generalizing visibility with
  | zero =>
    have hfields : fields? TypeEntry.keys (chainJson visibility 0) =
        some [some (ofText "T"), none, some (ofText visibility.key), none, none, none, none, none,
          none] := rfl
    rw [Nat.mul_zero, Nat.zero_add, TypeEntry.decode, hfields]
    simp [orElse, required, Visibility.ofKey?_key, chainTree]
  | succ n ih =>
    have hfields : fields? TypeEntry.keys (chainJson visibility (n + 1)) =
        some [some (ofText "T"), none, some (ofText visibility.key), none, none, none, none, none,
          some (.array [chainJson .nestedPublic n])] := rfl
    rw [show 2 * (n + 1) + 1 = (2 * n + 1 + 1) + 1 by omega, TypeEntry.decode, hfields]
    simp [orElse, required, Visibility.ofKey?_key, ih, chainTree]

/-- A chain has a type on each level. -/
theorem heightAll_chainTree (visibility : Visibility) (n : Nat) :
    Tree.heightAll [chainTree visibility n] = n + 1 := by
  induction n generalizing visibility with
  | zero => simp [chainTree]
  | succ n ih => simp [chainTree, ih]

/-- No type of a chain has properties. -/
theorem properties_of_mem_chainTree {visibility : Visibility} {n : Nat} {entry : TypeEntry}
    (h : entry ∈ (chainTree visibility n).preorder) : entry.properties = [] := by
  induction n generalizing visibility with
  | zero =>
    simp only [chainTree, Tree.preorder_node, Tree.preorderAll_nil, List.mem_singleton] at h
    rw [h]
  | succ n ih =>
    simp only [chainTree, Tree.preorder_node, Tree.preorderAll_cons, Tree.preorderAll_nil,
      List.append_nil, List.mem_cons] at h
    rcases h with rfl | h
    · rfl
    · exact ih h

/-- A document with types on 63 levels can be read. -/
theorem exists_decode_deepJson (path : Path) :
    ∃ m, Format.json.decode path (deepJson 62).render.toUTF8.data = .ok m ∧
      (ofModule m).levels = 63 := by
  have hdocument : ofJson? (deepJson 62) = some (deepDocument 62) := by
    have hfields : fields? ["name", "types"] (deepJson 62) =
        some [some (ofText "Deep"), some (.array [chainJson .publicType 62])] := rfl
    have htypes : list TypeEntry.decode 126 (.array [chainJson .publicType 62]) =
        some [chainTree .publicType 62] := by
      rw [list, List.mapM_cons, decode_chainJson .publicType 62]
      rfl
    rw [ofJson?, maxDepth, decode, hfields]
    simp [orElse, required, htypes, deepDocument]
  -- no type of the document has a property, and so none has an accessor that is not a method
  have hmodule : ¬ (deepDocument 62).HasUnknownAccessor := by
    rintro ⟨entry, hentry, property, hproperty, -⟩
    simp only [entries, deepDocument, Tree.preorderAll_cons, Tree.preorderAll_nil,
      List.append_nil] at hentry
    rw [properties_of_mem_chainTree hentry] at hproperty
    cases hproperty
  obtain ⟨m, hm⟩ := (toModule_isOk_iff (deepDocument 62)).2 hmodule
  refine ⟨m, Format.decode_json_eq_ok_iff.2 ⟨_, deepDocument 62, fromUTF8_toUTF8 _, ?_, hm⟩, ?_⟩
  · refine Format.documentOfText_eq_ok_iff.2 ⟨deepJson 62, ?_, hdocument⟩
    rw [Json.render, String.toList_ofList, Json.read_write]
  · rw [ofModule_of_toModule hm, levels, deepDocument, heightAll_chainTree]

end Document

namespace Publication

variable (settings : PromotionSettings) {input output second : Path} {content : Bytes}
  {m : Module}

/-- However documents are read: a document that was read and then made public is read back, as itself,
exactly if it has types on 62 levels at most. -/
theorem read_publicized {ε : Type} {read : String → Except ε Document}
    (hreads : Document.ReadsDocuments read) {text : String} {document : Document}
    (hdocument : read text = .ok document) (other : Document) :
    read (document.publicized settings).render = .ok other ↔
      document.levels ≤ 62 ∧ document.publicized settings = other := by
  obtain ⟨-, hdepth⟩ := hreads.levels_of_read text document hdocument
  rw [hreads.read_render, Document.depth_publicized, hdepth]

/-- The copy of a document is the document made public, and it is read as the module that was
written to it if the document has types on 62 levels at most, and not at all otherwise. -/
theorem copy_of_decode (hread : Format.json.decode input content = .ok m) :
    (Document.ofModule m).levels ≤ 63 ∧
      ∃ copy, Format.json.encode (prepare settings m).module output = .ok copy ∧
        ∀ again, Format.json.decode output copy = .ok again ↔
          (Document.ofModule m).levels ≤ 62 ∧ (prepare settings m).module = again := by
  obtain ⟨text, document, -, hdocument, hmodule⟩ := Format.decode_json_eq_ok_iff.1 hread
  have hreads := Format.readsDocuments_documentOfText
  rw [Document.ofModule_of_toModule hmodule]
  refine ⟨(hreads.levels_of_read text document hdocument).1,
    (document.publicized settings).render.toUTF8.data, ?_, fun again => ?_⟩
  · rw [Format.encode, Document.ofModule_prepare hmodule settings]
  · simp only [Format.decode_json_eq_ok_iff, fromUTF8_toUTF8, Option.some.injEq, exists_and_left,
      exists_eq_left', read_publicized settings hreads hdocument, and_assoc,
      Document.toModule_publicized hmodule, Except.ok.injEq]

/-- The module of a document comes out as it was when it is prepared a second time. -/
theorem prepare_prepare_of_decode (hread : Format.json.decode input content = .ok m) :
    (prepare settings (prepare settings m).module).module = (prepare settings m).module ∧
      (prepare settings (prepare settings m).module).counts =
        { (0 : PromotionCounts) with keptFields := (prepare settings m).counts.keptFields } ∧
      (prepare settings (prepare settings m).module).strippedBodies = 0 := by
  obtain ⟨text, document, -, -, hmodule⟩ := Format.decode_json_eq_ok_iff.1 hread
  -- the module lists its types in the order of their ids, prepared or not
  obtain ⟨decls, -, rfl⟩ := Document.toModule_eq_ok_iff.1 hmodule
  refine prepare_prepare settings (Module.size_ofTrees document.name decls)
    (Module.flatten_ofTrees document.name decls) ?_
  rw [module_prepare_ofTrees, Module.flatten_ofTrees, Tree.count_mapNestedAll]

/-- What becomes of the copy of a document: it can be read exactly if the document has types on 62
levels at most, where 63 can be read, and then it is its own copy, in which nothing is made public
and nothing is emptied, and the same fields are kept. -/
theorem publish_copy (hread : Format.json.decode input content = .ok m) :
    (Document.ofModule m).levels ≤ 63 ∧
      ∃ copy, Format.json.encode (prepare settings m).module output = .ok copy ∧
        ((∃ again, Format.json.decode output copy = .ok again) ↔
          (Document.ofModule m).levels ≤ 62) ∧
        ∀ again, Format.json.decode output copy = .ok again →
          Format.json.encode (prepare settings again).module second = .ok copy ∧
          (prepare settings again).counts.total = 0 ∧
          (prepare settings again).counts.keptFields = (prepare settings m).counts.keptFields ∧
          (prepare settings again).strippedBodies = 0 := by
  obtain ⟨hlevels, copy, hcopy, hagain⟩ := copy_of_decode settings hread
  refine ⟨hlevels, copy, hcopy, ?_, ?_⟩
  · simp only [hagain, exists_and_left, exists_eq', and_true]
  · intro again hdecoded
    obtain ⟨-, rfl⟩ := (hagain again).1 hdecoded
    obtain ⟨hsame, hcounts, hstripped⟩ := prepare_prepare_of_decode settings hread
    rw [hsame, hcounts]
    exact ⟨hcopy, rfl, rfl, hstripped⟩

/-- A document that is its own copy after the first time: the method is made public and loses its
code, and the field of the event stays as it was. -/
theorem publish_copy_hiddenSample :
    ∃ m, Format.json.decode ⟨"Sample.json"⟩ Document.hiddenSample.render.toUTF8.data = .ok m ∧
      (prepare ⟨true, true⟩ m).counts = ⟨1, 1, 0, 0, 0, 1⟩ ∧
      (prepare ⟨true, true⟩ m).strippedBodies = 1 ∧
      ∃ copy again, Format.json.encode (prepare ⟨true, true⟩ m).module ⟨"Copy.json"⟩ = .ok copy ∧
        Format.json.decode ⟨"Copy.json"⟩ copy = .ok again ∧
        Format.json.encode (prepare ⟨true, true⟩ again).module ⟨"Second.json"⟩ = .ok copy ∧
        (prepare ⟨true, true⟩ again).counts.total = 0 ∧
        (prepare ⟨true, true⟩ again).counts.keptFields = 1 ∧
        (prepare ⟨true, true⟩ again).strippedBodies = 0 := by
  let m : Module := .ofTrees "Sample" [.node
    { name := "Holder"
      visibility := .notPublic
      methods := [{ name := "Run", access := .privateMember, body := some ⟨0, #[0x2a]⟩ }]
      fields := [{ name := "Changed", access := .privateMember }]
      events := ["Changed"] } []]
  have hm : Document.hiddenSample.toModule = .ok m :=
    Document.toModule_eq_ok_iff.2 ⟨_, rfl, rfl⟩
  have hread : Format.json.decode ⟨"Sample.json"⟩ Document.hiddenSample.render.toUTF8.data = .ok m :=
    Format.decode_json_eq_ok_iff.2 ⟨_, _, fromUTF8_toUTF8 _,
      (Format.readsDocuments_documentOfText.read_render _ _).2 ⟨by decide, rfl⟩, hm⟩
  obtain ⟨-, copy, hcopy, hiff, hagain⟩ := publish_copy ⟨true, true⟩ hread
  have hlevels : (Document.ofModule m).levels ≤ 62 := by
    rw [Document.ofModule_of_toModule hm]
    decide
  obtain ⟨again, hdecoded⟩ := hiff.2 hlevels
  obtain ⟨hsame, htotal, hkept, hstripped⟩ := hagain again hdecoded
  have hcounts : (prepare ⟨true, true⟩ m).counts = ⟨1, 1, 0, 0, 0, 1⟩ := by
    decide
  refine ⟨m, hread, hcounts, ?_, copy, again, hcopy, hdecoded, hsame, htotal, ?_, hstripped⟩
  · decide
  · rw [hkept, hcounts]

/-- A document that can be read has a copy that cannot: the copy has the empty lists of the type on
the 63rd level, and is nested 128 deep with them. -/
theorem not_publish_copy_deepJson :
    ∃ m copy, Format.json.decode ⟨"Deep.json"⟩ (Document.deepJson 62).render.toUTF8.data = .ok m ∧
      Format.json.encode (prepare {} m).module ⟨"Copy.json"⟩ = .ok copy ∧
      ∀ again, Format.json.decode ⟨"Copy.json"⟩ copy ≠ .ok again := by
  obtain ⟨m, hread, hlevels⟩ := Document.exists_decode_deepJson ⟨"Deep.json"⟩
  obtain ⟨-, copy, hcopy, hagain⟩ := copy_of_decode {} hread
  refine ⟨m, copy, hread, hcopy, fun again h => ?_⟩
  have hle := ((hagain again).1 h).1
  omega

end Publication


end PublicAssembly
