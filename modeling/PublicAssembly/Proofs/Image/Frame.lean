import PublicAssembly.Proofs.Image.Promotion
import PublicAssembly.Proofs.Image.Separation

/-!
# What writing back any module can touch

A module may be edited in any way before it is written back: types may be copied with their tokens,
members removed or moved, flags and code replaced. Whatever it has become, the file differs from the
one it came from in flag words that tokens of the module name, and in first bytes of bodies whose
code is empty in the module but not in the file. Nothing is asked of where the parts of the file
lie, so a body may well begin in a flag word.

## Main definitions

* `Module.NamesFlags`: the tokens of a module, with the flag column of the table they belong to;
* `Image.InNamedFlags`: the places in flag words that a module names;
* `Image.LostCode`: the bodies that a module leaves without their code;
* `Image.Written`: the changes that write back a module.

## Main statements

* `written_of_patches`: every change of a module is one of a named flag word or a lost body;
* `patch_frame`: which places of the file can differ, and how.
-/

namespace PublicAssembly

open Metadata (Table TableHeader columns)
open Reading

/-- A type, a field or a method of the module has the token; the flag words of its table stand in the
column. -/
inductive Module.NamesFlags (m : Module) : Table → (column : Nat) → (token : UInt32) → Prop where
  /-- The token of a type. -/
  | type {decl : TypeDecl} {token : UInt32} (hdecl : decl ∈ m.types)
    (htoken : decl.token = some token) : m.NamesFlags Table.typeDef 0 token
  /-- The token of a field of a type. -/
  | field {decl : TypeDecl} {field : FieldDecl} {token : UInt32} (hdecl : decl ∈ m.types)
    (hfield : field ∈ decl.fields) (htoken : field.token = some token) :
    m.NamesFlags Table.field 0 token
  /-- The token of a method of a type. -/
  | method {decl : TypeDecl} {method : MethodDecl} {token : UInt32} (hdecl : decl ∈ m.types)
    (hmethod : method ∈ decl.methods) (htoken : method.token = some token) :
    m.NamesFlags Table.methodDef 2 token

namespace Image

/-- The place lies in the flag word of a row that a token of the module names. -/
def InNamedFlags (image : Image) (m : Module) (i : Nat) : Prop :=
  ∃ table column token row offset width, m.NamesFlags table column token ∧
    tokenRow token table = .ok row ∧
    image.metadata.layout.cell table row column = .ok (offset, width) ∧
    offset ≤ i ∧ i < offset + width

/-- The body is that of a method of the module: the image has code there, and the module has a body
without code. -/
def LostCode (image : Image) (m : Module) (place : Body) : Prop :=
  ∃ decl ∈ m.types, ∃ method ∈ decl.methods, ∃ token row rva code body,
    method.token = some token ∧ tokenRow token Table.methodDef = .ok row ∧
    image.cell Table.methodDef row 0 = .ok rva ∧ rva ≠ 0 ∧
    image.bodyAt rva = .ok (place, code) ∧ code ≠ #[] ∧
    method.body = some body ∧ body.code = #[]

/-- The changes that write back a module: each fills the flag word of a row that the module names, or
empties a body that lost its code. -/
inductive Written (image : Image) (m : Module) : Patch → Prop where
  /-- The change fills a flag word. -/
  | flags {table column row : Nat} {token : UInt32} {change : Patch}
    (hnames : m.NamesFlags table column token) (hrow : tokenRow token table = .ok row)
    (hcell : image.metadata.layout.cell table row column =
      .ok (change.offset, change.bytes.length)) : Written image m change
  /-- The change empties a body. -/
  | body {place : Body} (hlost : image.LostCode m place) :
    Written image m (.emptyBody place.headerOffset)

section Written

variable {data : Bytes} {image : Image} {m : Module}

/-! ### What each part of a module is written as -/

/-- What it takes to find the flag word of a token. -/
theorem tokenCell_eq_ok_iff {token : UInt32} {table column row offset : Nat} :
    image.tokenCell token table column = .ok (row, offset) ↔
      tokenRow token table = .ok row ∧
        ∃ width, image.metadata.layout.cell table row column = .ok (offset, width) := by
  simp only [tokenCell, bind_eq_ok_iff, pure_eq_ok_iff, Prod.mk.injEq, Prod.exists]
  constructor
  · rintro ⟨_, hrow, _, width, hcell, rfl, rfl⟩
    exact ⟨hrow, width, hcell⟩
  · rintro ⟨hrow, width, hcell⟩
    exact ⟨row, hrow, offset, width, hcell, rfl, rfl⟩

/-- A change of a flag word is as long as the words of the column are wide. -/
theorem written_flags (hread : Image.read data = .ok image) {table column row offset : Nat}
    {token : UInt32} {change : Patch} {kind : Metadata.Column} {width : Nat}
    (hnames : m.NamesFlags table column token)
    (hcell : image.tokenCell token table column = .ok (row, offset))
    (htable : table < Table.count) (hcolumn : (columns table)[column]? = some kind)
    (hkind : ∀ heaps counts, kind.width heaps counts = width) (hoffset : change.offset = offset)
    (hbytes : change.bytes.length = width) : Written image m change := by
  obtain ⟨hrow, width', hplace⟩ := tokenCell_eq_ok_iff.1 hcell
  obtain ⟨-, -, header, hlayout, -⟩ := layout_of_read hread
  have hwidth : width' = width := by
    rw [hlayout] at hplace
    rw [TableHeader.width_of_cell htable hplace hcolumn, hkind]
  refine .flags hnames hrow ?_
  rw [hplace, hwidth, hoffset, hbytes]

/-- A field is written as a change of its flag word. -/
theorem written_of_fieldPatch (hread : Image.read data = .ok image) {decl : TypeDecl}
    (hdecl : decl ∈ m.types) {field : FieldDecl} (hfield : field ∈ decl.fields) {change : Patch}
    (h : image.fieldPatch field = .ok change) : Written image m change := by
  rw [fieldPatch] at h
  split at h
  · cases h
  · next token htoken =>
    simp only [bind_eq_ok_iff, pure_eq_ok_iff, Prod.exists] at h
    obtain ⟨row, offset, hcell, rfl⟩ := h
    exact written_flags hread (.field hdecl hfield htoken) hcell (by decide)
      (show _ = some .word from rfl) (fun _ _ => rfl) rfl (Bytes.length_littleEndianBytes _ _)

/-- What it takes to write back the code of a method: the code is not looked at, is the same, or
is empty in the module alone. -/
theorem bodyPatch_eq_ok_iff {row : Nat} {name : String} {body : MethodBody}
    {change : Option Patch} :
    image.bodyPatch row name body = .ok change ↔ ∃ rva, image.cell Table.methodDef row 0 = .ok rva ∧
      (rva = 0 ∧ body.code = #[] ∧ change = none ∨
        rva ≠ 0 ∧ ∃ place code, image.bodyAt rva = .ok (place, code) ∧
          (code = body.code ∧ change = none ∨
            code ≠ body.code ∧ body.code = #[] ∧
              change = some (.emptyBody place.headerOffset))) := by
  simp only [bodyPatch, bind_eq_ok_iff, Array.isEmpty_iff, throw_eq]
  refine exists_congr fun rva => and_congr_right fun _ => ?_
  -- the cases of the writer: no body in the file, the same code, code that was taken away
  by_cases hrva : rva = 0
  · by_cases hempty : body.code = #[]
    · simp [hrva, hempty, eq_comm (b := change)]
    · simp [hrva, hempty]
  · simp only [hrva, if_false, bind_eq_ok_iff, Prod.exists, false_and, false_or, ne_eq,
      not_false_eq_true, true_and]
    refine exists_congr fun place => exists_congr fun code => and_congr_right fun _ => ?_
    by_cases hsame : code = body.code
    · simp [hsame, eq_comm (b := change)]
    · by_cases hempty : body.code = #[]
      · simp [hempty, hempty ▸ hsame, eq_comm (b := change)]
      · simp [hsame, hempty]

/-- A method is written as a change of its flag word, and one of its body if that lost its code. -/
theorem written_of_methodPatches (hread : Image.read data = .ok image) {decl : TypeDecl}
    (hdecl : decl ∈ m.types) {method : MethodDecl} (hmethod : method ∈ decl.methods)
    {changes : List Patch} (h : image.methodPatches method = .ok changes) :
    ∀ change ∈ changes, Written image m change := by
  rw [methodPatches] at h
  split at h
  · cases h
  · next token htoken =>
    simp only [bind_eq_ok_iff, Prod.exists] at h
    obtain ⟨row, offset, hcell, h⟩ := h
    -- the flag word is written in any case
    have hflags : Written image m (.memberFlags offset method.flags) :=
      written_flags hread (.method hdecl hmethod htoken) hcell (by decide)
        (show _ = some .word from rfl) (fun _ _ => rfl) rfl (Bytes.length_littleEndianBytes _ _)
    split at h
    · cases h
      exact List.forall_mem_singleton.2 hflags
    · next body hbody =>
      simp only [bind_eq_ok_iff, pure_eq_ok_iff] at h
      obtain ⟨emptied, hemptied, rfl⟩ := h
      -- a second change comes only from a body that had code in the file and has none in the module
      refine List.forall_mem_cons.2 ⟨hflags, fun change hchange => ?_⟩
      obtain rfl := Option.mem_toList.1 hchange
      obtain ⟨rva, hrva, ⟨-, -, hnone⟩ | ⟨hne, place, code, hat, hcode⟩⟩ :=
        bodyPatch_eq_ok_iff.1 hemptied
      · cases hnone
      · rcases hcode with ⟨-, hnone⟩ | ⟨hcode, hempty, hsome⟩
        · cases hnone
        · cases hsome
          rw [hempty] at hcode
          exact .body ⟨decl, hdecl, method, hmethod, token, row, rva, code, body, htoken,
            (tokenCell_eq_ok_iff.1 hcell).1, hrva, hne, hat, hcode, hbody, hempty⟩

/-- A type is written as changes of its own flag word and for its members. -/
theorem written_of_typePatches (hread : Image.read data = .ok image) {decl : TypeDecl}
    (hdecl : decl ∈ m.types) {changes : List Patch} (h : image.typePatches decl = .ok changes) :
    ∀ change ∈ changes, Written image m change := by
  rw [typePatches] at h
  split at h
  · cases h
  · next token htoken =>
    simp only [bind_eq_ok_iff, pure_eq_ok_iff, Prod.exists] at h
    obtain ⟨row, offset, hcell, fields, hfields, methods, hmethods, rfl⟩ := h
    intro change hchange
    -- a change is the one of the type itself, of one of its fields or of one of its methods
    rw [List.mem_cons, List.mem_append, List.mem_flatten] at hchange
    rcases hchange with rfl | hchange | ⟨ofMethod, hofMethod, hchange⟩
    · exact written_flags hread (.type hdecl htoken) hcell (by decide)
        (show _ = some .doubleWord from rfl) (fun _ _ => rfl) rfl
        (Bytes.length_littleEndianBytes _ _)
    · obtain ⟨field, hfield, hpatch⟩ := (mem_mapM_iff hfields).1 hchange
      exact written_of_fieldPatch hread hdecl hfield hpatch
    · obtain ⟨method, hmethod, hpatch⟩ := (mem_mapM_iff hmethods).1 hofMethod
      exact written_of_methodPatches hread hdecl hmethod hpatch change hchange

/-! ### The whole module -/

/-- Every change of a module is one of a flag word that it names or of a body that lost its
code. -/
theorem written_of_patches (hread : Image.read data = .ok image) {changes : List Patch}
    (h : image.patches m = .ok changes) : ∀ change ∈ changes, Written image m change := by
  simp only [patches, bind_eq_ok_iff, pure_eq_ok_iff] at h
  obtain ⟨types, htypes, rfl⟩ := h
  intro change hchange
  obtain ⟨ofType, hofType, hchange⟩ := List.mem_flatten.1 hchange
  obtain ⟨decl, hdecl, hpatch⟩ := (mem_mapM_iff htypes).1 hofType
  exact written_of_typePatches hread (Array.mem_toList_iff.1 hdecl) hpatch change hchange

/-- Every body that lost its code is emptied. -/
theorem mem_patches_of_lostCode {changes : List Patch} (h : image.patches m = .ok changes)
    {place : Body} (hlost : image.LostCode m place) :
    Patch.emptyBody place.headerOffset ∈ changes := by
  obtain ⟨decl, hdecl, method, hmethod, token, row, rva, code, body, htoken, hrow, hrva, hne, hat,
    hcode, hbody, hempty⟩ := hlost
  simp only [patches, bind_eq_ok_iff, pure_eq_ok_iff] at h
  obtain ⟨types, htypes, rfl⟩ := h
  -- the changes of the method are among those of its type, and these among all
  obtain ⟨ofType, hofType, hofTypes⟩ := exists_mem_of_mapM htypes (Array.mem_toList_iff.2 hdecl)
  refine List.mem_flatten_of_mem hofTypes ?_
  rw [typePatches] at hofType
  split at hofType
  · cases hofType
  · simp only [bind_eq_ok_iff, pure_eq_ok_iff, Prod.exists] at hofType
    obtain ⟨_, _, -, fields, -, methods, hmethods, rfl⟩ := hofType
    obtain ⟨ofMethod, hofMethod, hofMethods⟩ := exists_mem_of_mapM hmethods hmethod
    refine List.mem_cons_of_mem _ (List.mem_append_right _ (List.mem_flatten_of_mem hofMethods ?_))
    simp only [methodPatches, htoken, hbody, bind_eq_ok_iff, pure_eq_ok_iff, Prod.exists]
      at hofMethod
    obtain ⟨row', offset, hcell, emptied, hemptied, rfl⟩ := hofMethod
    cases hrow.symm.trans (tokenCell_eq_ok_iff.1 hcell).1
    have hpatch : image.bodyPatch row method.name body =
        .ok (some (.emptyBody place.headerOffset)) :=
      bodyPatch_eq_ok_iff.2 ⟨rva, hrva, .inr ⟨hne, place, code, hat,
        .inr ⟨by rwa [hempty], hempty, rfl⟩⟩⟩
    cases hpatch.symm.trans hemptied
    exact List.mem_cons_of_mem _ (Option.mem_toList.2 rfl)

/-- A place that a change of a module covers lies in a flag word or is the first byte of a body. -/
theorem Written.covers {change : Patch} (h : Written image m change) {i : Nat}
    (hi : change.Covers i) : image.InNamedFlags m i ∨
      ∃ place, image.LostCode m place ∧ i = place.headerOffset ∧
        change = .emptyBody place.headerOffset := by
  cases h with
  | flags hnames hrow hcell => exact .inl ⟨_, _, _, _, _, _, hnames, hrow, hcell, hi⟩
  | body hlost => exact .inr ⟨_, hlost, covers_emptyBody_iff.1 hi, rfl⟩

/-- A body that lost its code begins in the file. -/
theorem LostCode.headerOffset_lt (hread : Image.read data = .ok image) {place : Body}
    (h : image.LostCode m place) : place.headerOffset < data.size := by
  obtain ⟨decl, -, method, -, token, row, rva, code, body, -, -, -, -, hat, -⟩ := h
  rw [bodyAt, bind_eq_ok_iff] at hat
  obtain ⟨offset, -, hbody⟩ := hat
  obtain ⟨hplace, -, hroom⟩ := Body.header_of_read hbody
  rw [(layout_of_read hread).1] at hroom
  rwa [hplace]

end Written

/-- Writing back any module keeps the size of the file. A place that differs lies in a flag word that
the module names, or is the first byte of a body that lost its code; and such a first byte becomes
the header of a body without code unless it lies in such a flag word. -/
theorem patch_frame {m : Module} {data out : Bytes} (h : patch m data = .ok out) :
    ∃ image, Image.read data = .ok image ∧ out.size = data.size ∧
      (∀ i : Nat, out[i]? ≠ data[i]? → image.InNamedFlags m i ∨
        ∃ place, image.LostCode m place ∧ i = place.headerOffset) ∧
      ∀ place, image.LostCode m place → ¬ image.InNamedFlags m place.headerOffset →
        out[place.headerOffset]? = some 0x02 := by
  obtain ⟨image, changes, hread, hchanges, rfl⟩ := patch_eq_ok_iff.1 h
  have hwritten := written_of_patches hread hchanges
  refine ⟨image, hread, size_applyAll data changes, fun i hdiffers => ?_,
    fun place hlost hflags => ?_⟩
  · -- some change covers a place that differs
    by_contra hneither
    refine hdiffers (getElem?_applyAll_of_uncovered fun change hchange hcovers => hneither ?_)
    rcases (hwritten change hchange).covers hcovers with hflags | ⟨place, hlost, hplace, -⟩
    · exact .inl hflags
    · exact .inr ⟨place, hlost, hplace⟩
  · -- all changes that cover the first byte empty the body that begins there
    refine getElem?_applyAll (hlost.headerOffset_lt hread) (fun change hchange hcovers => ?_)
      (.inl ⟨_, mem_patches_of_lostCode hchanges hlost, covers_emptyBody_iff.2 rfl⟩)
    rcases (hwritten change hchange).covers hcovers with hnamed | ⟨other, -, hplace, rfl⟩
    · exact absurd hnamed hflags
    · rw [hplace]
      simp [Patch.bytes, Patch.offset, Body.emptyHeader]

/-- An edited module of the small image: its first type comes twice, the second time with a field of
the other type, and its method has lost its code. -/
def clonedModule : Module :=
  let run : MethodDecl :=
    { token := some 0x06000001, name := "run", access := .publicMember, body := some ⟨0, #[]⟩ }
  let kept : FieldDecl := { token := some 0x04000001, name := "kept", access := .publicMember }
  let first : TypeDecl :=
    { token := some 0x02000001, name := "first", visibility := .publicType, methods := [run] }
  let copy : TypeDecl :=
    { first with visibility := .nestedPublic, fields := [kept], methods := [] }
  { name := "clones", types := #[first, copy], roots := #[0, 1] }

/-- The edited module is written back into the small image: one body is emptied, and the file that
is written is another one. -/
theorem exists_patch_clonedModule :
    ∃ out, patchCounted clonedModule smallImage = .ok (out, 1) ∧
      patch clonedModule smallImage = .ok out ∧ out ≠ smallImage := by
  have htry : okAnd (fun written : Bytes × Nat => decide (written.1 ≠ smallImage ∧ written.2 = 1))
      (patchCounted clonedModule smallImage) = true := by
    decide +kernel
  obtain ⟨⟨out, emptied⟩, hwritten, hholds⟩ := okAnd_eq_true_iff.1 htry
  obtain ⟨hne, hone⟩ := of_decide_eq_true hholds
  dsimp only at hne hone
  subst hone
  exact ⟨out, hwritten, by rw [patch, hwritten, ok_bind]; rfl, hne⟩

/-- The edited module is written back into the small image, and all that can differ is in the flag
words that it names and in the first byte of the body. -/
theorem patch_frame_clonedModule :
    ∃ out image, patch clonedModule smallImage = .ok out ∧ Image.read smallImage = .ok image ∧
      out ≠ smallImage ∧ out.size = smallImage.size ∧
      (∀ i : Nat, out[i]? ≠ smallImage[i]? → image.InNamedFlags clonedModule i ∨
        ∃ place, image.LostCode clonedModule place ∧ i = place.headerOffset) := by
  obtain ⟨out, -, hout, hne⟩ := exists_patch_clonedModule
  obtain ⟨image, hread, hsize, hframe, -⟩ := patch_frame hout
  exact ⟨out, image, hout, hread, hne, hsize, hframe⟩

end Image

end PublicAssembly
