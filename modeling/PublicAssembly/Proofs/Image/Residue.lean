import PublicAssembly.Proofs.Image.Reloading

/-!
# What stripping leaves of the code

Emptying a body rewrites its header alone, so the instructions stay in the file as bytes that belong
to nothing. Two images that differ in instructions alone are read as modules that differ in code
alone. Once their bodies are emptied the modules are the same, and what is written into the two files
is the same: the files differ exactly where the images did.

## Main definitions

* `Image.DifferInCode`: two images that differ in the code of bodies;
* `TypeDecl.recoded`: a type with the code that another image has for its methods.

## Main statements

* `DifferInCode.load_eq`: the other image holds the module with the other code;
* `prepare_recoded`: the code of a module that is stripped does not matter;
* `patch_prepare_differInCode`: what the two files have in common, and what not.
-/

namespace PublicAssembly

open Metadata (Table)
open Reading

/-! ### Modules with other code -/

/-- The body with the code that an image has at its address, if that is as long. -/
def MethodBody.recoded (image : Image) (body : MethodBody) : MethodBody :=
  match image.bodyAt body.rva.toNat with
  | .ok (_, code) => if code.size = body.code.size then { body with code } else body
  | .error _ => body

/-- The method with the code that an image has for it. -/
def MethodDecl.recoded (image : Image) (method : MethodDecl) : MethodDecl :=
  { method with body := method.body.map (MethodBody.recoded image) }

/-- The type with the code that an image has for its methods. -/
def TypeDecl.recoded (image : Image) (decl : TypeDecl) : TypeDecl :=
  { decl with methods := decl.methods.map (MethodDecl.recoded image) }

/-- Other code is as long, and at the same address. -/
theorem MethodBody.size_recoded (image : Image) (body : MethodBody) :
    (body.recoded image).code.size = body.code.size ∧ (body.recoded image).rva = body.rva := by
  rw [recoded]
  split
  · split
    · next hsize => exact ⟨hsize, rfl⟩
    · exact ⟨rfl, rfl⟩
  · exact ⟨rfl, rfl⟩

namespace MethodDecl

variable (image : Image) (method : MethodDecl)

/-- A method with other code is a method with code. -/
theorem hasCode_recoded : (method.recoded image).hasCode = method.hasCode := by
  rw [recoded, hasCode, hasCode]
  cases method.body with
  | none => rfl
  | some body =>
    obtain ⟨hsize, -⟩ := body.size_recoded image
    simp only [Option.map_some, Array.isEmpty, hsize]

/-- A method with other code is the same method once its code is gone. -/
theorem strip_recoded : (method.recoded image).strip = method.strip := by
  rw [recoded, strip, strip, Option.map_map]
  congr 1
  congr 1
  funext body
  obtain ⟨-, hrva⟩ := body.size_recoded image
  simp only [Function.comp_apply, MethodBody.stripped, hrva]

end MethodDecl

/-- A type with other code is the same type once it was made public and its code is gone. -/
theorem TypeDecl.stripped_publicized_recoded (image : Image) (guard : Guard) (nested : Bool)
    (decl : TypeDecl) : ((decl.recoded image).publicized guard nested).strippedIf true =
      (decl.publicized guard nested).strippedIf true := by
  have hmethod (method : MethodDecl) :
      (method.recoded image).promote.strippedIf true = method.promote.strippedIf true :=
    (method.promote).strip_recoded image
  simp only [publicized, recoded, strippedIf, List.map_map, Function.comp_def, hmethod]

section Prepared

variable {m : Module} {n : Nat} (image : Image) (out : Bytes) {settings : PromotionSettings}

/-- The guard of a module does not depend on its code. -/
theorem Publication.guardOf_recoded (settings : PromotionSettings) (hm : m.size = n) :
    guardOf settings ((m.mapTypes (TypeDecl.recoded image)).withImage out) (List.range n) =
      guardOf settings m (List.range n) := by
  have hsize : ((m.mapTypes (TypeDecl.recoded image)).withImage out).size = n :=
    (Module.size_mapTypes _ m).trans hm
  rw [guardOf, guardOf, Guard.ofEvents, Guard.ofEvents, Module.eventNames_range hsize,
    Module.eventNames_range hm, Module.withImage, Module.mapTypes, Array.toList_map,
    List.flatMap_map]
  rfl

/-- What becomes of a module that is stripped does not depend on its code: neither the module that
is to be written nor what is counted. -/
theorem prepare_recoded (hm : m.size = n) (horder : m.flatten = List.range n)
    (horder' : ((m.mapTypes (TypeDecl.recoded image)).withImage out).flatten = List.range n)
    (hstrip : settings.stripBodies = true) :
    let recoded := (m.mapTypes (TypeDecl.recoded image)).withImage out
    (Publication.prepare settings recoded).module =
        (Publication.prepare settings m).module.withImage out ∧
      (Publication.prepare settings recoded).counts = (Publication.prepare settings m).counts ∧
      (Publication.prepare settings recoded).strippedBodies =
        (Publication.prepare settings m).strippedBodies := by
  intro recoded
  have hsize : recoded.size = n := (Module.size_mapTypes _ m).trans hm
  have htypes : recoded.types.toList = m.types.toList.map (TypeDecl.recoded image) :=
    Array.toList_map
  have hguard := Publication.guardOf_recoded image out settings hm
  refine ⟨?_, ?_, ?_⟩
  · rw [Publication.module_prepare settings hsize horder', Publication.module_prepare settings hm
      horder, horder', horder, hguard, hstrip]
    -- taking in the other code and an edit are one edit, and one that strips forgets the code
    have hmap (f : TypeDecl → TypeDecl) : recoded.mapTypes f =
        (m.mapTypes fun decl => f (decl.recoded image)).withImage out := by
      rw [← Module.mapTypes_mapTypes (TypeDecl.recoded image) f m]
      rfl
    rw [hmap]
    simp only [TypeDecl.stripped_publicized_recoded]
    rfl
  · rw [Publication.counts_prepare, Publication.counts_prepare, horder', horder, hguard,
      Module.counts_promote hsize, Module.counts_promote hm, htypes]
    simp only [List.map_map, List.countP_map, Function.comp_def, TypeDecl.recoded]
    rfl
  · rw [Publication.strippedBodies_prepare settings hsize horder',
      Publication.strippedBodies_prepare settings hm horder, htypes]
    simp only [List.map_map, List.countP_map, Function.comp_def, TypeDecl.recoded,
      MethodDecl.hasCode_recoded]

end Prepared

/-! ### Images that differ in code -/

namespace Image

/-- The bytes of the code of a body. -/
def Body.codeSpan (body : Body) : Span :=
  ⟨body.codeOffset, body.codeSize⟩

/-- The code of a body belongs to it. -/
theorem Body.holds_of_codeSpan {body : Body} {i : Nat} (h : body.codeSpan.Holds i) :
    body.span.Holds i := by
  simp only [Span.Holds, codeSpan, codeOffset, span] at h ⊢
  omega

/-- Another file of the same size differs from the image in the code of its bodies alone, and the
bodies are apart from the parts of the image, from the tables and, unless they are the same, from
each other. -/
structure DifferInCode (image : Image) (parts : List Span) (data other : Bytes) : Prop where
  /-- The files have the same size. -/
  size_eq : other.size = data.size
  /-- A byte that differs is one of the code of a body. -/
  differs : ∀ i : Nat, data[i]? ≠ other[i]? → ∃ body ∈ image.bodies, body.codeSpan.Holds i
  /-- No body lies in a part of the image. -/
  bodies_parts : ∀ body ∈ image.bodies, ∀ part ∈ parts, body.span.Apart part
  /-- No body lies in a table. -/
  bodies_tables : ∀ body ∈ image.bodies, ∀ table ∈ image.tableSpans, body.span.Apart table
  /-- Two bodies that begin at different places share nothing. -/
  bodies_bodies : ∀ body ∈ image.bodies, ∀ other ∈ image.bodies,
    body.headerOffset = other.headerOffset ∨ body.span.Apart other.span

/-- Two bodies that begin at the same place are the same. -/
theorem bodies_injective {image : Image} {body other : Body} (hbody : body ∈ image.bodies)
    (hother : other ∈ image.bodies) (h : body.headerOffset = other.headerOffset) :
    body = other := by
  obtain ⟨row, -, code, hhas⟩ := mem_bodies.1 hbody
  obtain ⟨row', -, code', hhas'⟩ := mem_bodies.1 hother
  have hread := hhas.read_eq
  rw [h, hhas'.read_eq] at hread
  cases hread
  rfl

section Differing

variable {data other : Bytes} {m : Module} {image : Image} {name : String} {members : Membership}
  {enclosing : Enclosing} {decls : List (Tree TypeDecl)} {spans : List Span}

namespace DifferInCode

/-- The files agree on a span that is apart from all bodies. -/
theorem agreeIn_of_apart (hdiffer : DifferInCode image spans data other) {span : Span}
    (hspan : ∀ body ∈ image.bodies, body.span.Apart span) : data.AgreeIn other span := by
  intro i hle hlt
  by_contra hne
  obtain ⟨body, hbody, hcode⟩ := hdiffer.differs i hne
  exact Span.apart_iff.1 (hspan body hbody) i (Body.holds_of_codeSpan hcode) ⟨hle, hlt⟩

/-- The other file is read as the same image with other contents. -/
theorem read_eq (hdiffer : DifferInCode image spans data other)
    (hread : Image.read data = .ok image) (hspans : parts data = .ok spans) :
    Image.read other = .ok (image.withData other) := by
  obtain ⟨spans', hspans', hagain⟩ := exists_parts hread
  cases hspans.symm.trans hspans'
  exact hagain other hdiffer.size_eq.symm fun span hspan =>
    hdiffer.agreeIn_of_apart fun body hbody => hdiffer.bodies_parts body hbody span hspan

/-- A byte of a cell is the same in both files. -/
theorem getElem?_of_cell (hdiffer : DifferInCode image spans data other)
    (hread : Image.read data = .ok image) {table row column offset width : Nat}
    (hcell : image.metadata.layout.cell table row column = .ok (offset, width)) :
    data.AgreeOn other offset width := by
  intro i hle hlt
  by_contra hne
  obtain ⟨body, hbody, hcode⟩ := hdiffer.differs i hne
  exact not_in_cell_of_apart hread (hdiffer.bodies_tables body hbody)
    (Body.holds_of_codeSpan hcode) hcell ⟨hle, hlt⟩

/-- All cells are the same. -/
theorem cell_eq (hdiffer : DifferInCode image spans data other)
    (hread : Image.read data = .ok image) (table row column : Nat) :
    (image.withData other).cell table row column = image.cell table row column :=
  cell_withData hread hdiffer.size_eq fun _ _ hcell => hdiffer.getElem?_of_cell hread hcell

/-- The images are alike, as even their flag words are the same. -/
theorem alike (hdiffer : DifferInCode image spans data other)
    (hread : Image.read data = .ok image) : Alike image (image.withData other) where
  headers_eq := rfl
  layout_eq := rfl
  strings_eq := rfl
  blobs_eq := rfl
  cell_eq _ row := hdiffer.cell_eq hread _ row _

/-- A byte of the header of a body is the same in both files. -/
theorem agreeOn_header (hdiffer : DifferInCode image spans data other) {body : Body}
    (hbody : body ∈ image.bodies) : data.AgreeOn other body.headerOffset body.headerSize := by
  intro i hle hlt
  by_contra hne
  obtain ⟨owner, howner, hcode⟩ := hdiffer.differs i hne
  rcases hdiffer.bodies_bodies body hbody owner howner with hsame | happart
  · -- the code of a body lies behind its own header
    obtain rfl := bodies_injective hbody howner hsame
    have hbehind : body.headerOffset + body.headerSize ≤ i := hcode.1
    omega
  · refine Span.apart_iff.1 happart i ⟨hle, ?_⟩ (Body.holds_of_codeSpan hcode)
    simp only [Body.span]
    omega

/-- A body of the image lies at the same place in the other file, with code of the same size. -/
theorem exists_code (hdiffer : DifferInCode image spans data other)
    (hread : Image.read data = .ok image) {body : Body} (hbody : body ∈ image.bodies) {rva : Nat}
    {code : Bytes} (hat : image.bodyAt rva = .ok (body, code)) :
    ∃ code', (image.withData other).bodyAt rva = .ok (body, code') ∧ code'.size = code.size := by
  obtain ⟨offset, haddress, hcode⟩ := bodyAt_eq_ok_iff.1 hat
  rw [(layout_of_read hread).1] at hcode
  obtain ⟨hheader, hslice⟩ := Body.read_eq_ok_iff.1 hcode
  have hheader' := Body.readHeader_congr hheader hdiffer.size_eq.symm
    (hdiffer.agreeOn_header hbody)
  rw [Bytes.slice_eq_ok_iff] at hslice
  obtain ⟨hroom, rfl⟩ := hslice
  -- the header says where the code is and how long, and it is the same in both files
  refine ⟨other.extract body.codeOffset (body.codeOffset + body.codeSize), ?_, ?_⟩
  · exact bodyAt_eq_ok_iff.2 ⟨offset, haddress, Body.read_eq_ok_iff.2 ⟨hheader',
      Bytes.slice_eq_ok_iff.2 ⟨hroom.trans_eq hdiffer.size_eq.symm, rfl⟩⟩⟩
  · rw [Array.size_extract, Array.size_extract, hdiffer.size_eq]

/-! ### The module of the other image -/

/-- A method is read alike, but with the code of the other image. -/
theorem methodDecl_eq (hdiffer : DifferInCode image spans data other)
    (hread : Image.read data = .ok image) {row : Nat} (hrow : image.Owned 5 Table.methodDef row)
    {method : MethodDecl} (hmethod : image.methodDecl row = .ok method) :
    (image.withData other).methodDecl row =
      .ok (method.recoded (image.withData other)) := by
  refine (hdiffer.alike hread).methodDecl_eq (hdiffer.cell_eq hread) hmethod
    fun rva implFlags hrva himpl hbody => ?_
  rw [methodBody_eq_ok_iff] at hbody ⊢
  split at hbody
  · next hmanaged =>
    obtain ⟨place, code, hat, hsome⟩ := hbody
    -- the body is one of the image, so that its header is the same in the other file
    have hplace : place ∈ image.bodies :=
      mem_bodies.2 ⟨row, hrow, code, rva, implFlags, hrva, himpl, hmanaged.1, hmanaged.2, hat⟩
    obtain ⟨code', hat', hsize⟩ := hdiffer.exists_code hread hplace hat
    rw [if_pos hmanaged, hsome]
    refine ⟨place, code', hat', ?_⟩
    simp only [Option.map_some, MethodBody.recoded, toNat_rva hread hrva, hat', hsize, if_true]
  · next hunmanaged => rw [if_neg hunmanaged, hbody, Option.map_none]

/-- A type is read alike, but with the code of the other image. -/
theorem typeDecl_eq (hdiffer : DifferInCode image spans data other)
    (hread : Image.read data = .ok image) {accessors : Array Accessors} {row : Nat}
    (hrows : ∀ method ∈ (members.methodRange row).rows, image.Owned 5 Table.methodDef method)
    {decl : TypeDecl} (hdecl : image.typeDecl members accessors row = .ok decl) :
    (image.withData other).typeDecl members accessors row =
      .ok (decl.recoded (image.withData other)) :=
  (hdiffer.alike hread).typeDecl_eq (hdiffer.cell_eq hread) hdecl fun method hmethod _ hd =>
    hdiffer.methodDecl_eq hread (hrows method hmethod) hd

/-- The other image holds the module with the other code. -/
theorem loads (hdiffer : DifferInCode image spans data other) (hspans : parts data = .ok spans)
    (h : Loads data m image name members enclosing decls) :
    ∃ decls', Loads other
      ((m.mapTypes (TypeDecl.recoded (image.withData other))).withImage other)
      (image.withData other) name members enclosing decls' := by
  obtain ⟨-, hmethods⟩ := runs_of_membership h.members_eq
  exact ⟨_, h.edited (hdiffer.read_eq h.image_eq hspans) (hdiffer.alike h.image_eq)
    (fun _ => TypeDecl.recoded (image.withData other)) (fun _ _ _ _ => rfl)
    fun type htype decl hdecl => hdiffer.typeDecl_eq h.image_eq
      (fun method hmethod => (hmethods.owned_iff method).2 ⟨type, htype, hmethod⟩) hdecl⟩

/-! ### The two files -/

/-- The same low bits are written into the same cells. -/
theorem writtenBits_iff (hdiffer : DifferInCode image spans data other)
    (hread : Image.read data = .ok image) {guard : Guard} {table row column bits : Nat} :
    WrittenBits (image.withData other) members enclosing guard table row column bits ↔
      WrittenBits image members enclosing guard table row column bits := by
  -- only the name of a field is looked at, and it is read alike
  have hfield (row : Nat) : (image.withData other).fieldDecl row = image.fieldDecl row :=
    (hdiffer.alike hread).fieldDecl_eq (hdiffer.cell_eq hread)
  refine exists_congr fun type => and_congr_right fun _ => ⟨fun h => ?_, fun h => ?_⟩
  · cases h with
    | type => exact .type
    | field hrow hdecl => exact .field hrow ((hfield _).symm.trans hdecl)
    | method hrow => exact .method hrow
  · cases h with
    | type => exact .type
    | field hrow hdecl => exact .field hrow ((hfield _).trans hdecl)
    | method hrow => exact .method hrow

/-- A method has a body with code in both images or in none. -/
theorem hasBody_iff (hdiffer : DifferInCode image spans data other)
    (h : Loads data m image name members enclosing decls) {type row : Nat}
    (htype : type ∈ List.range' 1 (image.rows Table.typeDef))
    (hrow : row ∈ (members.methodRange type).rows) {place : Body} :
    (∃ code, (image.withData other).HasBody row place code ∧ code ≠ #[]) ↔
      ∃ code, image.HasBody row place code ∧ code ≠ #[] := by
  obtain ⟨-, hmethods⟩ := runs_of_membership h.members_eq
  have howned : image.Owned 5 Table.methodDef row := (hmethods.owned_iff row).2 ⟨type, htype, hrow⟩
  -- where the image has a body, both have one at the same place and of the same size
  have hboth {place : Body} {code : Bytes} {rva implFlags : Nat}
      (hrva : image.cell Table.methodDef row 0 = .ok rva)
      (himpl : image.cell Table.methodDef row 1 = .ok implFlags)
      (hmanaged : rva ≠ 0 ∧ implFlags % 4 = 0) (hat : image.bodyAt rva = .ok (place, code)) :=
    hdiffer.exists_code h.image_eq
      (mem_bodies.2 ⟨row, howned, code, rva, implFlags, hrva, himpl, hmanaged.1, hmanaged.2, hat⟩)
      hat
  constructor
  · rintro ⟨code', ⟨rva, implFlags, hrva, himpl, hne, hmanaged, hat'⟩, hcode'⟩
    rw [hdiffer.cell_eq h.image_eq] at hrva himpl
    obtain ⟨method, hread'⟩ := h.exists_methodDecl htype hrow
    obtain ⟨rva', implFlags', -, -, -, -, -, -, body, hrva', himpl', -, -, -, -, -, -, hbody, -⟩ :=
      methodDecl_eq_ok_iff.1 hread'
    cases hrva.symm.trans hrva'
    cases himpl.symm.trans himpl'
    rw [methodBody_eq_ok_iff, if_pos ⟨hne, hmanaged⟩] at hbody
    obtain ⟨place', code, hat, -⟩ := hbody
    obtain ⟨code'', hat'', hsize⟩ := hboth hrva himpl ⟨hne, hmanaged⟩ hat
    cases hat'.symm.trans hat''
    refine ⟨code, ⟨rva, implFlags, hrva, himpl, hne, hmanaged, hat⟩, ?_⟩
    rwa [ne_eq, ← Array.size_eq_zero_iff, ← hsize, Array.size_eq_zero_iff]
  · rintro ⟨code, ⟨rva, implFlags, hrva, himpl, hne, hmanaged, hat⟩, hcode⟩
    obtain ⟨code', hat', hsize⟩ := hboth hrva himpl ⟨hne, hmanaged⟩ hat
    refine ⟨code', ⟨rva, implFlags, (hdiffer.cell_eq h.image_eq ..).trans hrva,
      (hdiffer.cell_eq h.image_eq ..).trans himpl, hne, hmanaged, hat'⟩, ?_⟩
    rwa [ne_eq, ← Array.size_eq_zero_iff, hsize, Array.size_eq_zero_iff]

/-- The same bodies are emptied. -/
theorem emptied_iff (hdiffer : DifferInCode image spans data other)
    (h : Loads data m image name members enclosing decls) {strip : Bool} {change : Patch} :
    Emptied (image.withData other) members strip change ↔ Emptied image members strip change := by
  -- which code there is does not matter, but that there is some
  have hcase {image : Image} {row : Nat} :
      (∃ place code, image.HasBody row place code ∧ emptied strip place code = some change) ↔
        strip = true ∧ ∃ place, (∃ code, image.HasBody row place code ∧ code ≠ #[]) ∧
          change = .emptyBody place.headerOffset := by
    simp only [emptied_eq_some_iff]
    constructor
    · rintro ⟨place, code, hbody, hstrip, hcode, hchange⟩
      exact ⟨hstrip, place, ⟨code, hbody, hcode⟩, hchange⟩
    · rintro ⟨hstrip, place, ⟨code, hbody, hcode⟩, hchange⟩
      exact ⟨place, code, hbody, hstrip, hcode, hchange⟩
  refine exists_congr fun type => and_congr_right fun htype =>
    exists_congr fun row => and_congr_right fun hrow => ?_
  rw [hcase, hcase]
  simp only [hdiffer.hasBody_iff h htype hrow]

/-- No body begins in a cell. -/
theorem headerOffset_not_in_cell (hdiffer : DifferInCode image spans data other)
    (hread : Image.read data = .ok image) {body : Body} (hbody : body ∈ image.bodies)
    {table row column offset width : Nat}
    (hcell : image.metadata.layout.cell table row column = .ok (offset, width)) :
    ¬ (offset ≤ body.headerOffset ∧ body.headerOffset < offset + width) :=
  not_in_cell_of_apart hread (hdiffer.bodies_tables body hbody) (holds_headerOffset hbody) hcell

section Written

variable {guard : Guard} {strip : Bool} {changes changes' : List Patch} {i : Nat}

/-- Where a body is emptied, the files agree, and so does what is written into them. -/
theorem getElem?_of_emptied (hdiffer : DifferInCode image spans data other)
    (h : Loads data m image name members enclosing decls)
    (hchanges : Publishes image members enclosing guard strip changes)
    (hchanges' : Publishes (image.withData other) members enclosing guard strip changes')
    (hempty : Emptied image members strip (.emptyBody i)) :
    data[i]? = other[i]? ∧ (applyAll data changes)[i]? = (applyAll other changes')[i]? := by
  obtain ⟨-, row, body, code, hbody, hhas, -, hplace⟩ := hempty.exists_body h.members_eq
  obtain rfl : i = body.headerOffset := by simpa using hplace
  obtain ⟨-, hpos, hroom⟩ := Body.header_of_read hhas.read_eq
  rw [(layout_of_read h.image_eq).1] at hroom
  refine ⟨hdiffer.agreeOn_header hbody body.headerOffset (Nat.le_refl _) (by omega), ?_⟩
  rw [hchanges.getElem?_of_emptied hempty hroom fun table row column bits first width hbits
      hcell => hdiffer.headerOffset_not_in_cell h.image_eq hbody hcell,
    hchanges'.getElem?_of_emptied ((hdiffer.emptied_iff h).2 hempty)
      (by rwa [hdiffer.size_eq]) fun table row column bits first width hbits hcell =>
        hdiffer.headerOffset_not_in_cell h.image_eq hbody hcell]

/-- Where no body is emptied, no change of a body is written, in either file. -/
theorem not_covers_of_not_emptied (hdiffer : DifferInCode image spans data other)
    (h : Loads data m image name members enclosing decls)
    (hempty : ¬ Emptied image members strip (.emptyBody i)) :
    (∀ change, Emptied image members strip change → ¬ change.Covers i) ∧
      ∀ change, Emptied (image.withData other) members strip change → ¬ change.Covers i := by
  have huncovered (change : Patch) (hchange : Emptied image members strip change) :
      ¬ change.Covers i := by
    intro hcovers
    obtain ⟨-, -, -, -, rfl⟩ := hchange.exists_of_covers h.members_eq hcovers
    exact hempty hchange
  exact ⟨huncovered, fun change hchange => huncovered change ((hdiffer.emptied_iff h).1 hchange)⟩

/-- Where the files agree, what is written into them agrees; where they differ, nothing is
written. -/
theorem getElem?_applyAll (hdiffer : DifferInCode image spans data other)
    (h : Loads data m image name members enclosing decls)
    (hread : Image.read other = .ok (image.withData other))
    (hchanges : Publishes image members enclosing guard strip changes)
    (hchanges' : Publishes (image.withData other) members enclosing guard strip changes')
    (i : Nat) :
    (data[i]? = other[i]? → (applyAll data changes)[i]? = (applyAll other changes')[i]?) ∧
      (data[i]? ≠ other[i]? →
        (applyAll data changes)[i]? = data[i]? ∧ (applyAll other changes')[i]? = other[i]?) := by
  by_cases hempty : Emptied image members strip (.emptyBody i)
  · obtain ⟨hsame, hwritten⟩ := hdiffer.getElem?_of_emptied h hchanges hchanges' hempty
    exact ⟨fun _ => hwritten, fun hne => absurd hsame hne⟩
  · obtain ⟨huncovered, huncovered'⟩ := hdiffer.not_covers_of_not_emptied h hempty
    by_cases hcells : ∃ table row column bits width,
      WrittenBits image members enclosing guard table row column bits ∧
        image.metadata.layout.cell table row column = .ok (i, width)
    · -- a cell that gets low bits begins here, in both files
      obtain ⟨table, row, column, bits, width, hbits, hcell⟩ := hcells
      have hwidth := hchanges.width_pos hbits hcell
      have hsame := hdiffer.getElem?_of_cell h.image_eq hcell i (Nat.le_refl i) (by omega)
      refine ⟨fun _ => ?_, fun hne => absurd hsame hne⟩
      rw [hchanges.getElem?_of_writtenBits h.image_eq hbits hcell huncovered,
        hchanges'.getElem?_of_writtenBits hread ((hdiffer.writtenBits_iff h.image_eq).2 hbits)
          hcell huncovered', hsame]
    · -- nothing is written here
      have hkept := hchanges.getElem?_of_unwritten h.image_eq (i := i)
        (fun table row column bits width hbits hcell =>
          hcells ⟨table, row, column, bits, width, hbits, hcell⟩) huncovered
      have hkept' := hchanges'.getElem?_of_unwritten hread (i := i)
        (fun table row column bits width hbits hcell => hcells ⟨table, row, column, bits, width,
          (hdiffer.writtenBits_iff h.image_eq).1 hbits, hcell⟩) huncovered'
      exact ⟨fun hsame => by rw [hkept, hkept', hsame], fun _ => ⟨hkept, hkept'⟩⟩

end Written

/-- Both modules can be written when they are stripped: what a publication writes into the image is
written, and the same guard decides in both files what is made public. -/
theorem exists_publishes (hdiffer : DifferInCode image spans data other)
    (hspans : parts data = .ok spans) (h : Loads data m image name members enclosing decls)
    (hfits : image.FitsTokens) (settings : PromotionSettings)
    (hstrip : settings.stripBodies = true) :
    let recoded := (m.mapTypes (TypeDecl.recoded (image.withData other))).withImage other
    let guard := Publication.guardOf settings m m.flatten
    ∃ changes changes', Image.read other = .ok (image.withData other) ∧
      Publishes image members enclosing guard true changes ∧
      Publishes (image.withData other) members enclosing guard true changes' ∧
      patch (Publication.prepare settings m).module data = .ok (applyAll data changes) ∧
      patch (Publication.prepare settings recoded).module other =
        .ok (applyAll other changes') := by
  intro recoded guard
  obtain ⟨decls', h'⟩ := hdiffer.loads hspans h
  have hrows : (image.withData other).rows Table.typeDef = image.rows Table.typeDef := rfl
  have hfits' : (image.withData other).FitsTokens := ⟨hfits.types, hfits.fields, hfits.methods⟩
  obtain ⟨changes, hpatches, hchanges⟩ := patches_prepare h hfits settings
  obtain ⟨changes', hpatches', hchanges'⟩ := patches_prepare h' hfits' settings
  -- the guard is the same, as it is made of the names of events
  rw [h'.flatten_eq, hrows, Publication.guardOf_recoded _ _ _ h.size_eq, ← h.flatten_eq] at hchanges'
  rw [hstrip] at hchanges hchanges'
  exact ⟨changes, changes', h'.image_eq, hchanges, hchanges',
    patch_eq_ok_iff.2 ⟨_, _, h.image_eq, hpatches, rfl⟩,
    patch_eq_ok_iff.2 ⟨_, _, h'.image_eq, hpatches', rfl⟩⟩

/-- A body with code is empty in both files. -/
theorem getElem?_headerOffset (hdiffer : DifferInCode image spans data other)
    (h : Loads data m image name members enclosing decls) {guard : Guard} {changes : List Patch}
    (hchanges : Publishes image members enclosing guard true changes) {body : Body}
    (hbody : body ∈ image.bodies) (hcode : body.codeSize ≠ 0) :
    (applyAll data changes)[body.headerOffset]? = some 0x02 ∧
      data[body.headerOffset]? = other[body.headerOffset]? := by
  obtain ⟨row, howned, code, hhas⟩ := mem_bodies.1 hbody
  obtain ⟨-, hmethods⟩ := runs_of_membership h.members_eq
  obtain ⟨type, htype, hrow⟩ := (hmethods.owned_iff row).1 howned
  obtain ⟨-, hpos, hroom⟩ := Body.header_of_read hhas.read_eq
  -- the code is as long as the header says, and this is not zero
  have hne : code ≠ #[] := by
    rintro rfl
    obtain ⟨hin, hempty⟩ := Bytes.slice_eq_ok_iff.1 (Body.read_eq_ok_iff.1 hhas.read_eq).2
    have hsize := congrArg Array.size hempty
    rw [Array.size_extract, Array.size_empty] at hsize
    omega
  rw [(layout_of_read h.image_eq).1] at hroom
  have hempty : Emptied image members true (.emptyBody body.headerOffset) :=
    ⟨type, htype, row, hrow, body, code, hhas, emptied_eq_some_iff.2 ⟨rfl, hne, rfl⟩⟩
  refine ⟨hchanges.getElem?_of_emptied hempty hroom fun table row column bits first width hbits
    hcell => hdiffer.headerOffset_not_in_cell h.image_eq hbody hcell, ?_⟩
  exact hdiffer.agreeOn_header hbody _ (Nat.le_refl _) (by omega)

end DifferInCode

end Differing

/-- Two images that differ in code alone are stripped alike: the same module is to be written, and the
same is counted. If tokens name all rows, both can be written. The two files then agree where the
images do; where these differ, in code, each file has what its image has; and every body with code
has got the header of a body without code. -/
theorem patch_prepare_differInCode {data other : Bytes} {m : Module} {image : Image}
    {spans : List Span} (hread : Image.read data = .ok image) (hload : load data = .ok m)
    (hspans : parts data = .ok spans) (hdiffer : DifferInCode image spans data other)
    (settings : PromotionSettings) (hstrip : settings.stripBodies = true) :
    ∃ m', load other = .ok m' ∧
      (Publication.prepare settings m').module =
        (Publication.prepare settings m).module.withImage other ∧
      (Publication.prepare settings m').counts = (Publication.prepare settings m).counts ∧
      (Publication.prepare settings m').strippedBodies =
        (Publication.prepare settings m).strippedBodies ∧
      (image.FitsTokens → ∃ out out',
        patch (Publication.prepare settings m).module data = .ok out ∧
        patch (Publication.prepare settings m').module other = .ok out' ∧
        (∀ i : Nat, data[i]? = other[i]? → out[i]? = out'[i]?) ∧
        (∀ i : Nat, data[i]? ≠ other[i]? → out[i]? = data[i]? ∧ out'[i]? = other[i]?) ∧
        ∀ body ∈ image.bodies, body.codeSize ≠ 0 →
          out[body.headerOffset]? = some 0x02 ∧ out'[body.headerOffset]? = some 0x02) := by
  obtain ⟨image', name, members, enclosing, decls, h⟩ := load_eq_ok_iff.1 hload
  cases hread.symm.trans h.image_eq
  obtain ⟨decls', h'⟩ := hdiffer.loads hspans h
  have hrows : (image.withData other).rows Table.typeDef = image.rows Table.typeDef := rfl
  obtain ⟨hmodule, hcounts, hstripped⟩ := prepare_recoded (image.withData other) other h.size_eq
    h.flatten_eq (hrows ▸ h'.flatten_eq) hstrip
  refine ⟨_, load_eq_ok_iff.2 ⟨_, _, _, _, _, h'⟩, hmodule, hcounts, hstripped, fun hfits => ?_⟩
  obtain ⟨changes, changes', hread', hchanges, hchanges', hpatch, hpatch'⟩ :=
    hdiffer.exists_publishes hspans h hfits settings hstrip
  have heach := hdiffer.getElem?_applyAll h hread' hchanges hchanges'
  refine ⟨applyAll data changes, applyAll other changes', hpatch, hpatch', fun i => (heach i).1,
    fun i => (heach i).2, fun body hbody hcode => ?_⟩
  obtain ⟨hempty, hsame⟩ := hdiffer.getElem?_headerOffset h hchanges hbody hcode
  exact ⟨hempty, ((heach _).1 hsame).symm.trans hempty⟩

/-- The small image with another constant in the code of its method. -/
def otherImage : Bytes :=
  smallImage.setIfInBounds 519 0x16

/-- The small image and the one with the other constant differ in code alone. -/
theorem differInCode_otherImage {image : Image} (hread : Image.read smallImage = .ok image) :
    ∃ spans, parts smallImage = .ok spans ∧ DifferInCode image spans smallImage otherImage := by
  have hevaluated : okAnd (fun image : Image => okAnd (fun spans : List Span => decide (
      (∃ body ∈ image.bodies, body.codeOffset ≤ 519 ∧ 519 < body.codeOffset + body.codeSize) ∧
      ∀ body ∈ image.bodies, ∀ part ∈ spans, body.span.Apart part))
      (parts smallImage)) (Image.read smallImage) = true := by
    decide +kernel
  obtain ⟨spans, hspans, hseparate⟩ := separate_smallImage hread
  rw [hread, okAnd, hspans, okAnd] at hevaluated
  obtain ⟨hcode, hparts⟩ := of_decide_eq_true hevaluated
  refine ⟨spans, hspans, Array.size_setIfInBounds, fun i hne => ?_, hparts,
    hseparate.bodies_tables, hseparate.bodies_bodies⟩
  -- the images differ in one byte, which is an instruction of a body
  have hplace : i = 519 := by
    by_contra hother
    exact hne (Array.getElem?_setIfInBounds_ne (Ne.symm hother)).symm
  exact hplace ▸ hcode

/-- Stripping the two images leaves both constants in the files: the instructions of a stripped body
stay where they were, and the files differ. -/
theorem not_erased_otherImage :
    ∃ image spans m m' out out', Image.read smallImage = .ok image ∧
      parts smallImage = .ok spans ∧ DifferInCode image spans smallImage otherImage ∧
      load smallImage = .ok m ∧ load otherImage = .ok m' ∧
      patch (Publication.prepare { stripBodies := true } m).module smallImage = .ok out ∧
      patch (Publication.prepare { stripBodies := true } m').module otherImage = .ok out' ∧
      out[519]? = some 0x17 ∧ out'[519]? = some 0x16 ∧ out ≠ out' := by
  obtain ⟨image, m, hread, hload, hfits⟩ := exists_load_smallImage
  obtain ⟨spans, hspans, hdiffer⟩ := differInCode_otherImage hread
  obtain ⟨image', name, members, enclosing, decls, h⟩ := load_eq_ok_iff.1 hload
  cases hread.symm.trans h.image_eq
  obtain ⟨decls', h'⟩ := hdiffer.loads hspans h
  obtain ⟨changes, changes', hread', hchanges, hchanges', hpatch, hpatch'⟩ :=
    hdiffer.exists_publishes hspans h hfits { stripBodies := true } rfl
  -- the images differ at the constant, so nothing is written there
  have hconstant : smallImage[519]? = some 0x17 := by
    decide +kernel
  have hconstant' : otherImage[519]? = some 0x16 := by
    rw [otherImage, Array.getElem?_setIfInBounds_self_of_lt (Array.getElem?_eq_some_iff.1 hconstant).1]
  have hne : smallImage[519]? ≠ otherImage[519]? := by
    rw [hconstant, hconstant']
    decide
  obtain ⟨hkept, hkept'⟩ :=
    (hdiffer.getElem?_applyAll h hread' hchanges hchanges' 519).2 hne
  refine ⟨image, spans, m, _, _, _, hread, hspans, hdiffer, hload,
    load_eq_ok_iff.2 ⟨_, _, _, _, _, h'⟩, hpatch, hpatch', hkept.trans hconstant,
    hkept'.trans hconstant', fun hsame => hne ?_⟩
  rw [← hkept, ← hkept', hsame]

/-- The small image and the one with the other constant are stripped alike, and their files agree
wherever the images do. -/
theorem patch_prepare_otherImage :
    ∃ m m' out out', load smallImage = .ok m ∧ load otherImage = .ok m' ∧
      (Publication.prepare { stripBodies := true } m').module =
        (Publication.prepare { stripBodies := true } m).module.withImage otherImage ∧
      patch (Publication.prepare { stripBodies := true } m).module smallImage = .ok out ∧
      patch (Publication.prepare { stripBodies := true } m').module otherImage = .ok out' ∧
      ∀ i : Nat, smallImage[i]? = otherImage[i]? → out[i]? = out'[i]? := by
  obtain ⟨image, m, hread, hload, hfits⟩ := exists_load_smallImage
  obtain ⟨spans, hspans, hdiffer⟩ := differInCode_otherImage hread
  obtain ⟨m', hload', hmodule, -, -, hwritten⟩ :=
    patch_prepare_differInCode hread hload hspans hdiffer { stripBodies := true } rfl
  obtain ⟨out, out', hout, hout', hagree, -⟩ := hwritten hfits
  exact ⟨m, m', out, out', hload, hload', hmodule, hout, hout', hagree⟩

end Image

end PublicAssembly
