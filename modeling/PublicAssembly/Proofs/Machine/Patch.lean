import PublicAssembly.Image.Patch
import PublicAssembly.Proofs.Image.Frame
import PublicAssembly.Proofs.Image.Promotion
import PublicAssembly.Proofs.Machine.Load

/-!
# Writing back a module on a machine

The flags and the first bytes of bodies are written into the file one after another while the types
are gone through, and the bodies that lose their code are counted. Running numbers collect the
changes first. The steps of a machine perform these changes (`Performs`): every place that is
written to was found in the file, and the file keeps its size.

## Main definitions

* `Machine.patch`: write back a module, with every operation on words;
* `Machine.Performs`: a step on a file performs some changes.

## Main statements

* `load_patch_settle`: loading and writing back give a result, or stop with a fault of the data.
-/

namespace PublicAssembly.Machine

open Image (Fault Patch Body applyAll)
open Metadata (Table)

/-- A file that is being written, and the number of bodies that lost their code. -/
abbrev Progress : Type :=
  Bytes × Nat

/-- The row of a token that must belong to the table. -/
def rowOf (token : UInt32) (table : Table) : Checked Nat := do
  let high ← shiftRight 32 token.toNat 24
  if high = table then
    return token.toNat &&& 0xFFFFFF
  else
    throw (.fault (.malformed (.foreignToken token.toNat table)))

/-- The row that a token names, and the offset of one of its cells. -/
def cellOf (image : Image) (token : UInt32) (table : Table) (column : Nat) :
    Checked (Nat × Nat) := do
  let row ← rowOf token table
  let (offset, _) ← placeOf image.metadata.layout table row column
  return (row, offset)

/-- Write back a field. -/
def patchField (image : Image) (progress : Progress) (field : FieldDecl) : Checked Progress := do
  match field.token with
  | none => throw (.fault (.unsupported (.fieldWithoutRow field.name)))
  | some token =>
    let (_, offset) ← cellOf image token Table.field 0
    let out ← write progress.1 offset (Bytes.littleEndianBytes 2 field.flags.toNat)
    return (out, progress.2)

/-- Write back the code of the method in a row, and say whether it was emptied. -/
def patchBody (image : Image) (out : Bytes) (row : Nat) (name : String) (body : MethodBody) :
    Checked (Bytes × Bool) := do
  let rva ← cell image.metadata Table.methodDef row 0
  if rva = 0 then
    if body.code.isEmpty then
      return (out, false)
    else
      throw (.fault (.unsupported (.gainedBody name)))
  else
    let (place, code) ← bodyAt image rva
    if code = body.code then
      return (out, false)
    else if body.code.isEmpty then
      -- the header alone changes, and the code stays behind it
      let out ← put out place.headerOffset Body.emptyHeader
      return (out, true)
    else
      throw (.fault (.unsupported (.changedBody name)))

/-- Write back a method. -/
def patchMethod (image : Image) (progress : Progress) (method : MethodDecl) :
    Checked Progress := do
  match method.token with
  | none => throw (.fault (.unsupported (.methodWithoutRow method.name)))
  | some token =>
    let (row, offset) ← cellOf image token Table.methodDef 2
    let out ← write progress.1 offset (Bytes.littleEndianBytes 2 method.flags.toNat)
    match method.body with
    | none => return (out, progress.2)
    | some body =>
      let (out, emptied) ← patchBody image out row method.name body
      if emptied then
        let stripped ← add 64 progress.2 1
        return (out, stripped)
      else
        return (out, progress.2)

/-- Write back a type with its members. -/
def patchType (image : Image) (progress : Progress) (decl : TypeDecl) : Checked Progress := do
  match decl.token with
  | none => throw (.fault (.unsupported (.typeWithoutRow decl.fullName)))
  | some token =>
    let (_, offset) ← cellOf image token Table.typeDef 0
    let out ← write progress.1 offset (Bytes.littleEndianBytes 4 decl.flags.toNat)
    let progress ← decl.fields.foldlM (patchField image) (out, progress.2)
    decl.methods.foldlM (patchMethod image) progress

/-- Write a module back into a file, and count the bodies that were emptied. -/
def patch (m : Module) (data : Bytes) : Checked Progress := do
  let image ← readImage data
  m.types.toList.foldlM (patchType image) (data, 0)

/-! ### Steps that perform changes -/

/-- A step on a file of some size performs the changes that are found, if they are found, and counts
the emptied bodies among them, of which there are at most so many. -/
structure Performs (size most : Nat) (step : Progress → Checked Progress)
    (found : Except Fault (List Patch)) : Prop where
  /-- The step performs the changes, or stops with the fault that kept them from being found. -/
  eq_lift : ∀ out stripped, out.size = size → stripped + most < 2 ^ 64 →
    step (out, stripped) = lift (found >>= fun changes =>
      .ok (applyAll out changes, stripped + changes.countP Patch.emptiesBody))
  /-- No more bodies are emptied than the bound says. -/
  count_le : ∀ changes, found = .ok changes → changes.countP Patch.emptiesBody ≤ most

namespace Performs

variable {size most more : Nat} {step next : Progress → Checked Progress}
  {found others : Except Fault (List Patch)}

/-- A step that stops with a fault. -/
theorem fault (cause : Fault) :
    Performs size most (fun _ => .error (.fault cause)) (.error cause) := by
  refine ⟨fun out stripped _ _ => rfl, fun changes h => ?_⟩
  cases h

/-- A step that changes nothing. -/
theorem nil : Performs size 0 (fun progress => .ok progress) (.ok []) := by
  refine ⟨fun out stripped _ _ => rfl, fun changes h => ?_⟩
  cases h
  exact Nat.le_refl 0

/-- There may be fewer emptied bodies than a bound says. -/
theorem mono (h : Performs size most step found) (hle : most ≤ more) :
    Performs size more step found :=
  ⟨fun out stripped hsize hroom => h.eq_lift out stripped hsize (by omega),
    fun changes hchanges => Nat.le_trans (h.count_le changes hchanges) hle⟩

/-- The changes of two steps, one after the other. -/
theorem append (h : Performs size most step found) (hnext : Performs size more next others) :
    Performs size (most + more) (fun progress => step progress >>= next)
      (found >>= fun changes => others >>= fun behind => .ok (changes ++ behind)) := by
  refine ⟨fun out stripped hsize hroom => ?_, fun changes hchanges => ?_⟩
  · rw [h.eq_lift out stripped hsize (by omega), bind_assoc]
    rcases hfound : found with _ | changes
    · rfl
    have hcount := h.count_le changes hfound
    -- the second step begins in the file that the first one leaves, which has the same size
    have hrest := hnext.eq_lift (applyAll out changes)
      (stripped + changes.countP Patch.emptiesBody) (by rw [Image.size_applyAll, hsize]) (by omega)
    rw [Reading.ok_bind, Reading.ok_bind, lift_ok, Reading.ok_bind, hrest]
    rcases others with _ | behind
    · rfl
    · simp only [Reading.ok_bind, applyAll, List.foldl_append, List.countP_append, Nat.add_assoc]
  · simp only [Reading.bind_eq_ok_iff] at hchanges
    obtain ⟨first, hfirst, behind, hbehind, hchanges⟩ := hchanges
    cases hchanges
    have hle := h.count_le first hfirst
    have hle' := hnext.count_le behind hbehind
    rw [List.countP_append]
    omega

/-- The changes of many steps, one after the other. -/
theorem foldlM {α : Type} (xs : List α) {each : α → Nat} {step : Progress → α → Checked Progress}
    {found : α → Except Fault (List Patch)}
    (h : ∀ x ∈ xs, Performs size (each x) (step · x) (found x)) :
    Performs size (xs.map each).sum (fun progress => xs.foldlM step progress)
      (xs.mapM found >>= fun changes => .ok changes.flatten) := by
  induction xs with
  | nil => exact nil
  | cons x rest ih =>
    rw [List.forall_mem_cons] at h
    -- the changes of the first item stand before those of the others
    have hfound : ((x :: rest).mapM found >>= fun changes => .ok changes.flatten) =
        found x >>= fun first => (rest.mapM found >>= fun changes => .ok changes.flatten) >>=
          fun behind => .ok (first ++ behind) := by
      rw [List.mapM_cons]
      rcases found x with _ | first
      · rfl
      · rcases rest.mapM found with _ | behind
        · rfl
        · rfl
    rw [List.map_cons, List.sum_cons, hfound]
    exact append h.1 (ih h.2)

/-- A step that writes one change which empties no body. -/
theorem write (change : Patch) (hroom : change.offset + change.bytes.length ≤ size)
    (hsize : size < 2 ^ 32) (hkeeps : change.emptiesBody = false) :
    Performs size 0
      (fun progress => Machine.write progress.1 change.offset change.bytes >>= fun out =>
        .ok (out, progress.2)) (.ok [change]) := by
  refine ⟨fun out stripped hout _ => ?_, fun changes h => ?_⟩
  · dsimp only
    rw [write_eq (by omega) (by omega), Reading.ok_bind, Reading.ok_bind, lift_ok,
      List.countP_singleton, hkeeps]
    rfl
  · cases h
    rw [List.countP_singleton, hkeeps]
    exact Nat.le_refl 0

/-- A step behind a computation that looks only at the file that was read. -/
theorem bind_lift {α : Type} {read : Except Fault α} {step : α → Progress → Checked Progress}
    {found : α → Except Fault (List Patch)}
    (h : ∀ a, read = .ok a → Performs size most (step a) (found a)) :
    Performs size most (fun progress => lift read >>= fun a => step a progress)
      (read >>= found) := by
  rcases read with cause | a
  · exact fault cause
  · exact h a rfl

end Performs

/-! ### The changes of a module -/

section Changes

variable {image : Image}

theorem rowOf_eq (token : UInt32) (table : Table) :
    rowOf token table = lift (Image.tokenRow token table) := by
  rw [rowOf, Image.tokenRow, shiftRight_eq (by omega), Reading.ok_bind,
    Nat.and_two_pow_sub_one_eq_mod token.toNat 24]
  exact ite_eq_lift (fun _ => rfl) fun _ => rfl

theorem cellOf_eq (hfits : ImageFits image) (token : UInt32) (table : Table) (column : Nat) :
    cellOf image token table column = lift (image.tokenCell token table column) := by
  rw [cellOf, Image.tokenCell, rowOf_eq]
  refine bind_eq_lift rfl fun row _ => ?_
  rw [placeOf_eq hfits.data hfits.layout]
  exact bind_eq_lift rfl fun place _ => rfl

/-- The cell of a token lies in the file, as far as its column is wide. -/
theorem room_of_tokenCell (hfits : ImageFits image) {token : UInt32} {table : Table}
    {column row offset : Nat} (h : image.tokenCell token table column = .ok (row, offset)) :
    ∃ width, image.metadata.layout.cell table row column = .ok (offset, width) ∧
      offset + width ≤ image.data.size := by
  simp only [Image.tokenCell, Reading.bind_eq_ok_iff, Prod.exists, Reading.pure_eq_ok_iff,
    Prod.mk.injEq] at h
  obtain ⟨row', hrow, place, width, hcell, rfl, rfl⟩ := h
  exact ⟨width, hcell, hfits.layout.inside hcell⟩

theorem performs_patchField (hfits : ImageFits image) (field : FieldDecl) :
    Performs image.data.size 0 (patchField image · field)
      (image.fieldPatch field >>= fun change => .ok [change]) := by
  simp only [patchField, Image.fieldPatch]
  rcases field.token with _ | token
  · exact .fault _
  dsimp only
  rw [cellOf_eq hfits, bind_assoc]
  refine .bind_lift fun found hfound => ?_
  obtain ⟨row, offset⟩ := found
  obtain ⟨width, hcell, hroom⟩ := room_of_tokenCell hfits hfound
  -- the cell has room for the two bytes of a flag word
  have hwidth := hfits.layout.width hcell
  refine .write (.memberFlags offset field.flags) ?_ hfits.data rfl
  rw [Patch.bytes, Bytes.length_littleEndianBytes, Patch.offset]
  omega

/-- The header of a body lies in the file. -/
theorem headerOffset_lt {rva : Nat} {place : Body} {code : Bytes}
    (h : image.bodyAt rva = .ok (place, code)) : place.headerOffset < image.data.size := by
  rw [Image.bodyAt, Reading.bind_eq_ok_iff] at h
  obtain ⟨offset, -, hbody⟩ := h
  obtain ⟨hplace, -, hlt⟩ := Body.header_of_read hbody
  rwa [hplace]

theorem performs_patchBody (hfits : ImageFits image) (row : Nat) (name : String)
    (body : MethodBody) :
    Performs image.data.size 1
      (fun progress => patchBody image progress.1 row name body >>= fun found =>
        if found.2 then add 64 progress.2 1 >>= fun stripped => .ok (found.1, stripped)
        else .ok (found.1, progress.2))
      (image.bodyPatch row name body >>= fun change => .ok change.toList) := by
  refine ⟨fun out stripped hsize hroom => ?_, fun changes hchanges => ?_⟩
  · dsimp only
    rw [patchBody, Image.bodyPatch, cell_eq hfits]
    rcases hrva : image.cell Table.methodDef row 0 with _ | rva
    · rfl
    rw [lift_ok, Reading.ok_bind, Reading.ok_bind]
    -- a method without a body may not get one
    by_cases hzero : rva = 0
    · rw [if_pos hzero, if_pos hzero]
      split
      · rfl
      · rfl
    rw [if_neg hzero, if_neg hzero, bodyAt_eq hfits (cell_lt hfits hrva)]
    rcases hbody : image.bodyAt rva with _ | ⟨place, code⟩
    · rfl
    rw [lift_ok, Reading.ok_bind, Reading.ok_bind]
    dsimp only
    -- the body was read already, so that its header lies in the file
    by_cases hsame : code = body.code
    · rw [if_pos hsame, if_pos hsame]
      rfl
    rw [if_neg hsame, if_neg hsame]
    by_cases hempty : body.code.isEmpty = true
    · have hheader := headerOffset_lt hbody
      rw [if_pos hempty, if_pos hempty, put_eq (by omega), Reading.ok_bind]
      dsimp only [pure, Except.pure]
      rw [Reading.ok_bind, if_pos rfl, add_eq hroom]
      rfl
    · rw [if_neg hempty, if_neg hempty]
      rfl
  · rw [Reading.bind_eq_ok_iff] at hchanges
    obtain ⟨change, -, hchanges⟩ := hchanges
    cases hchanges
    refine Nat.le_trans List.countP_le_length ?_
    cases change with
    | none => exact Nat.zero_le 1
    | some change => exact Nat.le_refl 1

theorem performs_patchMethod (hfits : ImageFits image) (method : MethodDecl) :
    Performs image.data.size 1 (patchMethod image · method) (image.methodPatches method) := by
  simp only [patchMethod, Image.methodPatches]
  rcases method.token with _ | token
  · exact .fault _
  dsimp only
  rw [cellOf_eq hfits]
  refine .bind_lift fun found hfound => ?_
  obtain ⟨row, offset⟩ := found
  obtain ⟨width, hcell, hroom⟩ := room_of_tokenCell hfits hfound
  -- every cell has room for the two bytes of a flag word
  have hwidth := hfits.layout.width hcell
  have hflags : Performs image.data.size 0
      (fun progress => Machine.write progress.1 offset
        (Bytes.littleEndianBytes 2 method.flags.toNat) >>= fun out => .ok (out, progress.2))
      (.ok [.memberFlags offset method.flags]) := by
    refine .write (.memberFlags offset method.flags) ?_ hfits.data rfl
    rw [Patch.bytes, Bytes.length_littleEndianBytes, Patch.offset]
    omega
  rcases method.body with _ | body
  · exact hflags.mono (Nat.zero_le 1)
  · have hboth := hflags.append (performs_patchBody hfits row method.name body)
    simp only [bind_assoc, Reading.ok_bind] at hboth
    exact hboth

/-- The changes of the fields, each of which is one. -/
theorem mapM_singleton {α : Type} (read : α → Except Fault Patch) (xs : List α) :
    ((xs.mapM fun x => read x >>= fun change => .ok [change]) >>= fun changes =>
      .ok changes.flatten) = xs.mapM read := by
  induction xs with
  | nil => rfl
  | cons x rest ih =>
    rw [List.mapM_cons, List.mapM_cons, ← ih]
    rcases read x with _ | change
    · rfl
    · rcases rest.mapM fun x => read x >>= fun change => .ok [change] with _ | changes
      · rfl
      · rfl

theorem performs_patchType (hfits : ImageFits image) (decl : TypeDecl) :
    Performs image.data.size decl.methods.length (patchType image · decl)
      (image.typePatches decl) := by
  simp only [patchType, Image.typePatches]
  rcases decl.token with _ | token
  · exact .fault _
  dsimp only
  rw [cellOf_eq hfits]
  refine .bind_lift fun found hfound => ?_
  obtain ⟨row, offset⟩ := found
  obtain ⟨width, hcell, hroom⟩ := room_of_tokenCell hfits hfound
  obtain rfl := hfits.layout.doubleWord (by decide) (by decide) hcell
  have hflags : Performs image.data.size 0
      (fun progress => Machine.write progress.1 offset
        (Bytes.littleEndianBytes 4 decl.flags.toNat) >>= fun out => .ok (out, progress.2))
      (.ok [.typeFlags offset decl.flags]) := by
    refine .write (.typeFlags offset decl.flags) ?_ hfits.data rfl
    rw [Patch.bytes, Bytes.length_littleEndianBytes, Patch.offset]
    exact hroom
  have hfields := Performs.foldlM decl.fields fun field _ => performs_patchField hfits field
  have hmethods := Performs.foldlM decl.methods fun method _ => performs_patchMethod hfits method
  -- the word of the type, then those of its fields, then the methods, each of which may lose a body
  have hall := hflags.append (hfields.append hmethods)
  rw [mapM_singleton] at hall
  simp only [bind_assoc, Reading.ok_bind, List.map_const', List.sum_replicate_nat, Nat.mul_zero,
    Nat.mul_one, Nat.zero_add] at hall
  exact hall

end Changes

/-! ### Loading and writing back -/

/-- A module that a machine holds: each of its methods takes some memory, so that they can be counted
with a word. -/
def Held (m : Module) : Prop :=
  (m.types.toList.map fun decl => decl.methods.length).sum < 2 ^ 64

/-- A module that was loaded is held: no method row stands in two types. -/
theorem held_of_load {data : Bytes} (hdata : data.size < 2 ^ 32) {m : Module}
    (h : Image.load data = .ok m) : Held m := by
  obtain ⟨image, name, members, enclosing, decls, hloads⟩ := Image.load_eq_ok_iff.1 h
  have hruns := (Image.runs_of_membership hloads.members_eq).2
  have hmethods : m.types.toList.map (fun decl => decl.methods.length) =
      (PublicAssembly.Tree.preorderAll enclosing.forest).map
        fun row => (members.methodRange row).rows.length := by
    refine hloads.map_types (fun _ decl => decl.methods.length)
      (fun _ row => (members.methodRange row).rows.length) (fun _ _ _ _ => rfl) ?_
    intro nested row decl hdecl
    simp only [Image.typeDecl, Reading.bind_eq_ok_iff, Reading.pure_eq_ok_iff] at hdecl
    obtain ⟨-, -, -, -, -, -, -, -, methods, hmethods, rfl⟩ := hdecl
    have hlength := congrArg List.length (Reading.mapM_eq_ok_iff.1 hmethods)
    rw [List.length_map, List.length_map] at hlength
    exact hlength.symm
  -- the lists of the types share no method row, so that there are at most as many methods as rows
  have hsubset : ((List.range' 1 (image.rows Table.typeDef)).flatMap fun row =>
      (members.methodRange row).rows) ⊆ List.range' 1 (image.rows Table.methodDef) := by
    intro row hrow
    obtain ⟨type, htype, hrow⟩ := List.mem_flatMap.1 hrow
    have hle := hruns.row_le htype hrow
    rw [List.mem_range'_1]
    omega
  have hle := (List.subperm_of_subset hruns.nodup hsubset).length_le
  rw [List.length_flatMap, List.length_range'] at hle
  have hrows := rows_lt (imageFits hdata hloads.image_eq) Table.methodDef
  rw [Held, hmethods, (hloads.perm_rows.map _).sum_nat]
  omega

theorem patch_eq {data : Bytes} (hdata : data.size < 2 ^ 32) {m : Module} (hm : Held m) :
    patch m data = lift (Image.patchCounted m data) := by
  rw [patch, Image.patchCounted, readImage_eq hdata]
  refine bind_eq_lift rfl fun image himage => ?_
  have hfits := imageFits hdata himage
  have himageData := (Image.layout_of_read himage).1
  have hall := Performs.foldlM m.types.toList fun decl _ => performs_patchType hfits decl
  rw [Image.patches]
  -- the module is held, so that its emptied bodies can be counted
  rw [hall.eq_lift data 0 (by rw [himageData]) (by rw [Nat.zero_add]; exact hm), bind_assoc]
  rcases m.types.toList.mapM image.typePatches with _ | changes
  · rfl
  · simp only [Reading.ok_bind, Nat.zero_add]
    rfl

/-- Whatever the bytes of a file are, as long as there are less than 2 ^ 32, and whatever module is
written back into it: loading and writing back give the results that they have on numbers, or stop
with a fault of the data. On the way there is no operation on words without a result, none of the
states that are looked out for comes up, and no loop runs out of rounds. -/
theorem load_patch_settle {data : Bytes} (hdata : data.size < 2 ^ 32) :
    (load data = lift (Image.load data) ∧ Settles (load data)) ∧
      ∀ m, Held m → patch m data = lift (Image.patchCounted m data) ∧ Settles (patch m data) := by
  have hload := load_eq hdata
  refine ⟨⟨hload, ?_⟩, fun m hm => ?_⟩
  · rw [hload]
    exact settles_lift _
  · have hpatch := patch_eq hdata hm
    refine ⟨hpatch, ?_⟩
    rw [hpatch]
    exact settles_lift _

/-- The small image is loaded, and the edited module is written back into it: one body is emptied. -/
theorem load_patch_settle_smallImage :
    Image.smallImage.size < 2 ^ 32 ∧ Held Image.clonedModule ∧
      (∃ m, load Image.smallImage = .ok m) ∧
      ∃ out, patch Image.clonedModule Image.smallImage = .ok (out, 1) := by
  have hsize : Image.smallImage.size < 2 ^ 32 := by decide +kernel
  have hheld : Held Image.clonedModule := by
    rw [Held]
    decide +kernel
  obtain ⟨⟨hload, -⟩, hpatch⟩ := load_patch_settle hsize
  obtain ⟨-, m, -, hm, -⟩ := Image.exists_load_smallImage
  obtain ⟨out, hout, -, -⟩ := Image.exists_patch_clonedModule
  refine ⟨hsize, hheld, ⟨m, ?_⟩, out, ?_⟩
  · rw [hload, hm, lift_ok]
  · rw [(hpatch _ hheld).1, hout, lift_ok]

end PublicAssembly.Machine
