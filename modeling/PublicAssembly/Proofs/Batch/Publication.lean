import PublicAssembly.Batch.Publication
import PublicAssembly.Proofs.Files.Outputs
import PublicAssembly.Proofs.Running

/-!
# What the work on one input depends on

The work on an input looks at the files in two ways: it asks what the path of the input leads to, and
it makes a directory and puts the copy there. So the work is a draft, which depends on nothing but
the file of the input, followed by saving what was drafted.

## Main definitions

* `Publication.draft`: the module to write and where it goes, given what the input leads to.

## Main statements

* `Publication.ends_run`: the work on an input is its draft and then saving it;
* `Publication.ends_save`: saving makes the directory, and then writes what the format makes of the
  module;
* `Publication.ends_save_of_opens`: what saving does to a directory that is there.
-/

namespace PublicAssembly

open Files (Fault)
open Reading

variable {files left : FileTree}

namespace Format

/-! ### Reading and writing modules -/

/-- The module in a file. -/
def decode (format : Format) (path : Path) (content : Bytes) : Except Error Module :=
  match format with
  | json =>
    match String.fromUTF8? ⟨content⟩ with
    | none => .error (.read path (.files .notUtf8))
    | some text => do
      let document ← (documentOfText text).mapError fun fault => .read path (.json fault)
      document.toModule.mapError fun f => .read path (.document f)
  | image => (Image.load content).mapError fun fault => .read path (.image fault)

/-- A module is read from the file that its path leads to, and from nothing else. -/
theorem ends_read (format : Format) {path : Path} {content : Bytes}
    (h : files.find path = .ok (.file content)) :
    (format.read path).ends files = (files, format.decode path content) := by
  have hread : files.read path = .ok content := by
    rw [FileTree.read, h]
    rfl
  cases format with
  | json =>
    rw [read, readDocument, Run.ends_look_bind, FileTree.readText, hread, ok_bind, decode,
      Run.ends_ofExcept_bind]
    cases String.fromUTF8? ⟨content⟩ with
    | none => rfl
    | some text =>
      show Run.ends (Run.ofExcept _ (documentOfText text) >>= _) files = _
      dsimp only
      rw [Run.ends_ofExcept_bind]
      cases documentOfText text with
      | error fault => rfl
      | ok document =>
        exact (Run.ends_say_bind _ _ files).trans (Run.ends_ofExcept _ _ files)
  | image =>
    rw [read, readImage, Run.ends_look_bind, hread, decode, Run.ends_ofExcept_bind]
    show Run.ends (Run.say _ >>= _) files = _
    rw [Run.ends_say_bind, Run.ends_ofExcept_bind]
    cases Image.load content <;> rfl

/-- What a format makes of a module. -/
def encode (format : Format) (m : Module) (path : Path) : Except Error Bytes :=
  match format with
  | json => .ok (Document.ofModule m).render.toUTF8.data
  | image =>
    match m.image with
    | none => .error (.write path .noImage)
    | some source => (Image.patch m source).mapError fun fault => .write path (.image fault)

/-- A module is written as what the format makes of it. -/
theorem ends_write (format : Format) (m : Module) (path : Path) (files : FileTree) :
    (format.write m path).ends files =
      match format.encode m path with
      | .error error => (files, .error error)
      | .ok content =>
        match files.write path content with
        | .ok left => (left, .ok ())
        | .error fault => (files, .error (.write path (.files fault))) := by
  cases format with
  | json => exact Run.ends_replace _ _ files
  | image =>
    rw [write, writeImage, encode]
    cases m.image with
    | none => rfl
    | some source =>
      dsimp only
      rw [Run.ends_ofExcept_bind, Image.patch]
      cases Image.patchCounted m source with
      | error fault => rfl
      | ok patched =>
        obtain ⟨content, emptied⟩ := patched
        exact (Run.ends_say_bind _ _ files).trans (Run.ends_replace _ _ files)

end Format

/-- The directory of a target is made with those above it; nothing is done if it is there. -/
theorem OutputTarget.ends_ensureDirectory (target : OutputTarget) (files : FileTree) :
    target.ensureDirectory.ends files =
      ((files.makeDirectoryPath target.directory).1,
        (files.makeDirectoryPath target.directory).2.mapError (.createDirectory target.directory)) := by
  rw [ensureDirectory, Run.ends_look_bind]
  split
  · next hthere =>
    rw [FileTree.makeDirectoryPath_of_hasDirectory (by simpa using hthere)]
    rfl
  · rw [Run.ends_say_bind, Run.ends_change]

namespace Publication

variable {settings : Settings} {input : Path} {request : Option OutputRequest} {format : Format}
  {m : Module} {target : OutputTarget}

/-! ### Saving a module -/

/-- Saving a module makes the directory, and then writes what the format makes of the module. What
was made before a failure stays. -/
theorem ends_save (format : Format) (m : Module) (target : OutputTarget) (files : FileTree) :
    (save format m target).ends files =
      match files.makeDirectoryPath target.directory with
      | (made, .error fault) => (made, .error (.createDirectory target.directory fault))
      | (made, .ok ()) =>
        match format.encode m target.path with
        | .error error => (made, .error error)
        | .ok content =>
          match made.write target.path content with
          | .error fault => (made, .error (.write target.path (.files fault)))
          | .ok left =>
            (left, ((left.read target.path).mapError fun fault =>
              .write target.path (.files fault)).map Bytes.sha256) := by
  -- step by step: the directory, the content, the file, and its bytes once more
  rw [save, Run.ends_bind, OutputTarget.ends_ensureDirectory]
  rcases files.makeDirectoryPath target.directory with ⟨made, fault | ⟨⟩⟩
  · rfl
  · dsimp only [Except.mapError]
    rw [Run.ends_say_bind, Run.ends_bind, Format.ends_write]
    cases format.encode m target.path with
    | error error => rfl
    | ok content =>
      dsimp only
      cases made.write target.path content with
      | error fault => rfl
      | ok left =>
        dsimp only
        rw [Run.ends_look_bind, Run.ends_ofExcept_bind]
        cases left.read target.path <;> rfl

/-- Saving after the directory was made is the same as making the directory in it. -/
theorem ends_save_of_make (hmake : files.makeDirectoryPath target.directory = (left, .ok ()))
    (hagain : left.makeDirectoryPath target.directory = (left, .ok ())) :
    (save format m target).ends files = (save format m target).ends left := by
  rw [ends_save, ends_save, hmake, hagain]

/-- What a module is saved as in the directory at a place. -/
def contentIn (tree : FileTree) (place : Location) (format : Format) (m : Module)
    (target : OutputTarget) : Except Error Bytes := do
  let content ← format.encode m target.path
  match tree.admits target.path place target.fileName with
  | .ok () => return content
  | .error fault => throw (.write target.path (.files fault))

/-- What it takes for a module to be saved: it is encoded, and its file is admitted. -/
theorem contentIn_eq_ok_iff {tree : FileTree} {place : Location} {content : Bytes} :
    contentIn tree place format m target = .ok content ↔
      format.encode m target.path = .ok content ∧
        tree.admits target.path place target.fileName = .ok () := by
  rw [contentIn, bind_eq_ok_iff]
  cases tree.admits target.path place target.fileName <;> simp

/-- Saving a module in a directory that is there puts one file into it, or does nothing. -/
theorem ends_save_of_opens {place : Location}
    (hmake : files.makeDirectoryPath target.directory = (left, .ok ()))
    (hopens : left.Opens target.directory place) (hname : Path.PlainName target.fileName) :
    (save format m target).ends files =
      match contentIn left place format m target with
      | .error error => (left, .error error)
      | .ok content =>
        (left.putFiles place [(target.fileName, content)], .ok content.sha256) := by
  rw [ends_save, hmake, contentIn]
  dsimp only
  cases format.encode m target.path with
  | error error => rfl
  | ok content =>
    dsimp only
    rw [OutputTarget.path, FileTree.write_join hopens hname, ok_bind]
    cases hadmits : left.admits (target.directory.join ⟨target.fileName⟩) place target.fileName with
    | error fault => rfl
    | ok admitted =>
      obtain ⟨hplace, hfree⟩ := (FileTree.admits_eq_ok_iff hname).1 hadmits
      -- the copy is read where it was put
      have hadmitted : ∀ file ∈ [(target.fileName, content)],
          left.get? (place ++ [file.1]) ≠ some .directory := by
        simpa using hfree
      have hopened := hopens.putFiles hadmitted
      have hread := FileTree.read_join hopened hname hplace
        (FileTree.get?_set_self (by simp) left (.file content))
      simp only [Except.map, FileTree.putFiles_cons, FileTree.putFiles_nil] at hread ⊢
      rw [hread]
      rfl

/-! ### The work on one input -/

/-- The module to write and where it goes, given what the path of the input leads to. -/
def draft (settings : Settings) (input : Path) (request : Option OutputRequest)
    (found : Except Fault FileEntry) : Except Error (Prepared × OutputTarget) :=
  match found with
  | .ok (.file content) => do
    let m ← (Format.ofPath input).decode input content
    let target ← (OutputTarget.resolve settings.output input request).mapError .argument
    .ok (prepare settings.promotion m, target)
  | _ => .error (.notFound input)

/-- What it takes for a draft to be made: a file that is read, and a target. -/
theorem draft_eq_ok_iff {found : Except Fault FileEntry} {prepared : Prepared} :
    draft settings input request found = .ok (prepared, target) ↔
      ∃ content m, found = .ok (.file content) ∧ (Format.ofPath input).decode input content = .ok m ∧
        OutputTarget.resolve settings.output input request = .ok target ∧
        prepare settings.promotion m = prepared := by
  unfold draft
  split
  · simp only [bind_eq_ok_iff, mapError_eq_ok_iff, Except.ok.injEq, FileEntry.file.injEq,
      Prod.mk.injEq]
    constructor
    · rintro ⟨m, hm, found, hfound, rfl, rfl⟩
      exact ⟨_, m, rfl, hm, hfound, rfl⟩
    · rintro ⟨_, m, rfl, hm, htarget, rfl⟩
      exact ⟨m, hm, target, htarget, rfl, rfl⟩
  · next hnone =>
    constructor
    · intro h
      cases h
    · rintro ⟨content, -, hfound, -⟩
      exact absurd hfound (hnone content)

/-- What is known of a copy that was saved. -/
def ofSaved (input : Path) (prepared : Prepared) (target : OutputTarget) (digest : String) :
    Publication where
  input
  output := target.path
  format := Format.ofPath input
  counts := prepared.counts
  strippedBodies := prepared.strippedBodies
  digest

/-- The work on an input is its draft, which depends on the file of the input alone, and then saving
what was drafted. -/
theorem ends_run (settings : Settings) (input : Path) (request : Option OutputRequest)
    (files : FileTree) :
    (run settings input request).ends files =
      match draft settings input request (files.find input) with
      | .error error => (files, .error error)
      | .ok (prepared, target) =>
        ((save (Format.ofPath input) prepared.module target).ends files).map id
          (Except.map (ofSaved input prepared target)) := by
  rw [run, Run.ends_look_bind]
  -- without a file there is no draft, and nothing was done
  cases hfind : files.find input with
  | error fault => simp [FileTree.hasFile, hfind, draft]
  | ok entry =>
    cases entry with
    | directory => simp [FileTree.hasFile, hfind, draft]
    | file content =>
      have hfile : files.hasFile input = true := by rw [FileTree.hasFile, hfind]
      rw [if_pos hfile, draft]
      dsimp only
      rw [Run.ends_say_bind, Run.ends_bind, Format.ends_read _ hfind]
      cases (Format.ofPath input).decode input content with
      | error error => rfl
      | ok m =>
        dsimp only
        rw [Run.ends_say_bind, findTarget, Run.ends_bind, Run.ends_say_bind, Run.ends_ofExcept,
          ok_bind]
        cases OutputTarget.resolve settings.output input request with
        | error fault => rfl
        | ok target =>
          simp only [Except.mapError, ok_bind]
          rw [Run.ends_bind]
          rcases (save (Format.ofPath input) (prepare settings.promotion m).module target).ends files
            with ⟨left, error | digest⟩ <;> rfl

/-- What is published was saved at the target of the input. -/
theorem exists_save_of_ends_run {publication : Publication}
    (h : (run settings input request).ends files = (left, .ok publication)) :
    ∃ prepared target digest, OutputTarget.resolve settings.output input request = .ok target ∧
      (save (Format.ofPath input) prepared.module target).ends files = (left, .ok digest) ∧
      publication = ofSaved input prepared target digest := by
  rw [ends_run] at h
  split at h
  · cases h
  · next prepared target hdraft =>
    obtain ⟨-, -, -, -, htarget, -⟩ := draft_eq_ok_iff.1 hdraft
    rcases hsave : (save (Format.ofPath input) prepared.module target).ends files with
      ⟨saved, error | digest⟩
    · rw [hsave] at h
      cases h
    · rw [hsave] at h
      cases h
      exact ⟨prepared, target, digest, htarget, hsave, rfl⟩

/-- What the work on an input publishes is a copy of the input at its target. -/
theorem of_ends_run {publication : Publication}
    (h : (run settings input request).ends files = (left, .ok publication)) :
    publication.input = input ∧ ∃ target,
      OutputTarget.resolve settings.output input request = .ok target ∧
        publication.output = target.path := by
  obtain ⟨prepared, target, digest, htarget, -, rfl⟩ := exists_save_of_ends_run h
  exact ⟨rfl, target, htarget, rfl⟩

end Publication

end PublicAssembly
