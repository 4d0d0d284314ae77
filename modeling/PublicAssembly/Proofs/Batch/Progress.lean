import PublicAssembly.Proofs.Batch.Steps
import PublicAssembly.Proofs.Output.Names

/-!
# The files during a batch

The copies of a batch go to one directory under names that are all different. While a batch goes on,
the files are therefore in one of three states: as they were at the start; with what was left of an
attempt to make the directory; or with the directory and some copies in it. In each of them, saving
one more copy comes to the same as saving it at the start.

## Main definitions

* `Batch.Progress`: the files during a batch;
* `Batch.SameResult`: two results that are the same, but for the cause of a directory not being made;
* `Batch.Continues`: what one more copy does, compared with what it does at the start.

## Main statements

* `Progress.save`: saving one more copy comes to the same as saving it at the start;
* `Progress.step`: a step for one more input leaves the files in one of the three states;
* `Progress.steps`: so do the steps for some more inputs, and they leave all copies as they are.
-/

namespace PublicAssembly.Batch

open Files (Fault)
open Reading

/-! ### Copies in one directory -/

/-- Files that were put into the directory at a place are copies with the given record. -/
structure Copies (made : FileTree) (directory : Path) (place : Location)
    (copies : List (String × Bytes)) (written : List Written) : Prop where
  /-- Their names are single components of paths. -/
  plain : ∀ copy ∈ copies, Path.PlainName copy.1
  /-- No two have the same name. -/
  distinct : (copies.map Prod.fst).Nodup
  /-- Their names were not those of directories. -/
  admitted : ∀ copy ∈ copies, made.admits (directory.join ⟨copy.1⟩) place copy.1 = .ok ()
  /-- The record tells their paths. -/
  outputs : written.map Written.output = copies.map fun copy => directory.join ⟨copy.1⟩

namespace Copies

variable {made : FileTree} {directory : Path} {place : Location} {copies : List (String × Bytes)}
  {written : List Written}

/-- The names of copies are not those of directories. -/
theorem free (h : Copies made directory place copies written) :
    ∀ copy ∈ copies, made.get? (place ++ [copy.1]) ≠ some .directory :=
  fun copy hcopy => ((FileTree.admits_eq_ok_iff (h.plain copy hcopy)).1 (h.admitted copy hcopy)).2

/-- Copies can be read as what was put there. -/
theorem read (h : Copies made directory place copies written) (hopens : made.Opens directory place)
    {name : String} {content : Bytes} (hcopy : (name, content) ∈ copies) :
    (made.putFiles place copies).read (directory.join ⟨name⟩) = .ok content := by
  have hplain := h.plain _ hcopy
  have hplace := ((FileTree.admits_eq_ok_iff hplain).1 (h.admitted _ hcopy)).1
  exact FileTree.read_join (hopens.putFiles h.free) hplain hplace
    (FileTree.get?_putFiles h.distinct hcopy)

/-- The path of a copy leads to it. -/
theorem locate (h : Copies made directory place copies written)
    (hopens : made.Opens directory place) {file : String × Bytes} (hfile : file ∈ copies) :
    (made.putFiles place copies).locate (directory.join ⟨file.1⟩) = .ok (place ++ [file.1]) := by
  have hplain := h.plain file hfile
  rw [FileTree.locate_join (hopens.putFiles h.free) hplain]
  exact ((FileTree.admits_eq_ok_iff hplain).1 (h.admitted file hfile)).1

/-- There may be no copies yet. -/
theorem nil : Copies made directory place [] [] :=
  ⟨by simp, by simp, by simp, rfl⟩

/-- One more copy of another name. -/
theorem cons (h : Copies made directory place copies written) {name : String} (content : Bytes)
    (hname : Path.PlainName name) (hne : ∀ copy ∈ copies, copy.1 ≠ name)
    (hadmits : made.admits (directory.join ⟨name⟩) place name = .ok ()) (input : Path) :
    Copies made directory place ((name, content) :: copies)
      (⟨directory.join ⟨name⟩, input⟩ :: written) where
  plain := List.forall_mem_cons.2 ⟨hname, h.plain⟩
  distinct := by
    rw [List.map_cons, List.nodup_cons]
    refine ⟨fun hmem => ?_, h.distinct⟩
    obtain ⟨copy, hcopy, heq⟩ := List.mem_map.1 hmem
    exact hne copy hcopy heq
  admitted := List.forall_mem_cons.2 ⟨hadmits, h.admitted⟩
  outputs := by rw [List.map_cons, List.map_cons, h.outputs]

/-- Every file is one of the copies in the record. -/
theorem exists_written (h : Copies made directory place copies written) {file : String × Bytes}
    (hfile : file ∈ copies) : ∃ copy ∈ written, copy.output = directory.join ⟨file.1⟩ := by
  have hmem : directory.join ⟨file.1⟩ ∈ written.map Written.output := by
    rw [h.outputs]
    exact List.mem_map_of_mem (f := fun file : String × Bytes => directory.join ⟨file.1⟩) hfile
  exact List.mem_map.1 hmem

/-- Every copy in the record is one of the files. -/
theorem exists_of_mem (h : Copies made directory place copies written) {copy : Written}
    (hcopy : copy ∈ written) :
    ∃ name content, (name, content) ∈ copies ∧ copy.output = directory.join ⟨name⟩ := by
  have hmem := List.mem_map_of_mem (f := Written.output) hcopy
  rw [h.outputs] at hmem
  obtain ⟨⟨name, content⟩, hfile, heq⟩ := List.mem_map.1 hmem
  exact ⟨name, content, hfile, heq.symm⟩

/-- A path where no copy is has another name than all of them. -/
theorem name_ne (h : Copies made directory place copies written) {name : String}
    (hfree : ∀ copy ∈ written, copy.output.sameAs (directory.join ⟨name⟩) = false) :
    ∀ copy ∈ copies, copy.1 ≠ name := by
  rintro copy hcopy rfl
  obtain ⟨other, hother, heq⟩ := h.exists_written hcopy
  have hdiffer := hfree other hother
  rw [heq, Path.sameAs, beq_eq_false_iff_ne] at hdiffer
  exact hdiffer rfl

end Copies

/-! ### The states of the files -/

/-- The files during a batch whose copies go to a directory, and the record of the copies. -/
inductive Progress (files : FileTree) (directory : Path) : FileTree → List Written → Prop
  /-- Nothing was done. -/
  | untouched : Progress files directory files []
  /-- The directory could not be made. -/
  | blocked {left : FileTree} {fault : Fault}
      (hmake : files.makeDirectoryPath directory = (left, .error fault)) :
      Progress files directory left []
  /-- The directory was made, and some copies are in it. -/
  | opened {made : FileTree} {place : Location} {copies : List (String × Bytes)}
      {written : List Written} (hmake : files.makeDirectoryPath directory = (made, .ok ()))
      (hopens : made.Opens directory place) (hcopies : Copies made directory place copies written) :
      Progress files directory (made.putFiles place copies) written

/-- All copies are as they were. -/
def Keeps (written : List Written) (here left : FileTree) : Prop :=
  ∀ copy ∈ written, left.read copy.output = here.read copy.output

/-- Two results are the same; if both are that a directory cannot be made, the causes may differ. -/
inductive SameResult {α : Type} : Except Error α → Except Error α → Prop
  /-- They are the same. -/
  | refl (result : Except Error α) : SameResult result result
  /-- A directory cannot be made, for one reason or another. -/
  | createDirectory (path : Path) (fault again : Fault) :
      SameResult (.error (.createDirectory path fault)) (.error (.createDirectory path again))

/-- What is made of two results that are the same is the same. -/
theorem SameResult.map {α β : Type} (f : α → β) {one other : Except Error α}
    (h : SameResult one other) : SameResult (one.map f) (other.map f) := by
  cases h with
  | refl result => exact .refl _
  | createDirectory path fault again => exact .createDirectory path fault again

/-- What work that writes one copy does during a batch, compared with what it does at the start. -/
structure Continues {α : Type} (files : FileTree) (directory : Path) (written : List Written)
    (here : FileTree) (path : Path) (alone after : FileTree × Except Error α) : Prop where
  /-- It comes to the same. -/
  same : SameResult alone.2 after.2
  /-- It writes the same. -/
  content : ∀ a, after.2 = .ok a →
    ∃ content, alone.1.read path = .ok content ∧ after.1.read path = .ok content
  /-- After a failure there is no copy more than before. -/
  failed : ∀ error, after.2 = .error error → Progress files directory after.1 written
  /-- After a success there is one more. -/
  saved : ∀ a, after.2 = .ok a → ∀ input, Progress files directory after.1 (⟨path, input⟩ :: written)
  /-- The copies before it are as they were. -/
  keeps : Keeps written here after.1

namespace Progress

variable {files here : FileTree} {directory : Path} {written : List Written} {format : Format}
  {m : Module} {target : OutputTarget}

/-- Saving one more copy in a directory that is there. -/
theorem save_of_opens {made : FileTree} {place : Location} {copies : List (String × Bytes)}
    (hmake : files.makeDirectoryPath target.directory = (made, .ok ()))
    (hopens : made.Opens target.directory place)
    (hcopies : Copies made target.directory place copies written)
    (hname : Path.PlainName target.fileName)
    (hfree : ∀ copy ∈ written, copy.output.sameAs target.path = false) (format : Format)
    (m : Module) :
    Continues files target.directory written (made.putFiles place copies) target.path
      ((Publication.save format m target).ends files)
      ((Publication.save format m target).ends (made.putFiles place copies)) := by
  -- the two runs differ in copies with other names alone, and none of these stands in the way
  have hne := hcopies.name_ne hfree
  have hopened := hopens.putFiles hcopies.free
  have hcontent : Publication.contentIn (made.putFiles place copies) place format m target =
      Publication.contentIn made place format m target := by
    rw [Publication.contentIn, Publication.contentIn, FileTree.admits_putFiles hne hname]
  rw [Publication.ends_save_of_opens hmake hopens hname,
    Publication.ends_save_of_opens hopened.makeDirectoryPath hopened hname, hcontent]
  cases hwrite : Publication.contentIn made place format m target with
  | error error =>
    exact ⟨.refl _, by simp, fun _ _ => .opened hmake hopens hcopies, by simp, fun _ _ => rfl⟩
  | ok content =>
    obtain ⟨-, hadmits⟩ := Publication.contentIn_eq_ok_iff.1 hwrite
    have hmore := hcopies.cons content hname hne hadmits
    have hone := Copies.nil.cons content hname (by simp) hadmits target.directory
    dsimp only
    rw [FileTree.putFiles_putFiles, List.singleton_append, OutputTarget.path]
    refine ⟨.refl _, fun _ _ => ⟨content, ?_, ?_⟩, by simp, fun _ _ input => ?_, fun copy hcopy => ?_⟩
    · exact hone.read hopens List.mem_cons_self
    · exact (hmore target.directory).read hopens List.mem_cons_self
    · exact .opened hmake hopens (hmore input)
    · obtain ⟨name, found, hfile, heq⟩ := hcopies.exists_of_mem hcopy
      rw [heq, hcopies.read hopens hfile]
      exact (hmore target.directory).read hopens (List.mem_cons_of_mem _ hfile)

/-- Saving the first copy. -/
theorem save_untouched (hname : Path.PlainName target.fileName) (format : Format) (m : Module) :
    Continues files target.directory [] files target.path
      ((Publication.save format m target).ends files)
      ((Publication.save format m target).ends files) := by
  rcases hmake : files.makeDirectoryPath target.directory with ⟨made, fault | ⟨⟩⟩
  · have hends : (Publication.save format m target).ends files =
        (made, .error (.createDirectory target.directory fault)) := by
      rw [Publication.ends_save, hmake]
    rw [hends]
    exact ⟨.refl _, by simp, fun _ _ => .blocked hmake, by simp, by simp [Keeps]⟩
  · rcases FileTree.opens_of_makeDirectoryPath hmake with ⟨place, hopens⟩ | ⟨rfl, hempty, hnone⟩
    · have hfirst := save_of_opens hmake hopens .nil hname (by simp) format m
      rw [FileTree.putFiles_nil, ← Publication.ends_save_of_make hmake hopens.makeDirectoryPath]
        at hfirst
      exact ⟨hfirst.same, hfirst.content, hfirst.failed, hfirst.saved, by simp [Keeps]⟩
    · -- without a working directory nothing is ever written
      have hends : ∃ error, (Publication.save format m target).ends made = (made, .error error) := by
        rw [Publication.ends_save, hmake]
        dsimp only
        cases format.encode m target.path with
        | error error => exact ⟨error, rfl⟩
        | ok content =>
          dsimp only
          cases hwrite : made.write target.path content with
          | error fault => exact ⟨_, rfl⟩
          | ok left =>
            exact absurd hwrite
              (FileTree.write_of_no_workingDirectory hempty hnone hname content left)
      obtain ⟨error, hends⟩ := hends
      rw [hends]
      exact ⟨.refl _, by simp, fun _ _ => .untouched, by simp, by simp [Keeps]⟩

/-- Saving one more copy during a batch comes to the same as saving it at the start. -/
theorem save (h : Progress files target.directory here written)
    (hname : Path.PlainName target.fileName)
    (hfree : ∀ copy ∈ written, copy.output.sameAs target.path = false) (format : Format)
    (m : Module) :
    Continues files target.directory written here target.path
      ((Publication.save format m target).ends files)
      ((Publication.save format m target).ends here) := by
  cases h with
  | untouched => exact save_untouched hname format m
  | blocked hmake =>
    -- what stood in the way of the directory still does
    obtain ⟨again, hagain⟩ := FileTree.makeDirectoryPath_of_error hmake
    rw [Publication.ends_save, Publication.ends_save, hmake, hagain]
    exact ⟨.createDirectory _ _ _, by simp, fun _ _ => .blocked hmake, by simp, by simp [Keeps]⟩
  | opened hmake hopens hcopies => exact save_of_opens hmake hopens hcopies hname hfree format m

/-- A file of the start is found during a batch, unless a copy was written over it. -/
theorem find_eq (h : Progress files directory here written) {input : Path} {content : Bytes}
    (hfind : files.find input = .ok (.file content))
    (hother : ∀ copy ∈ written, here.locate copy.output ≠ files.locate input) :
    here.find input = files.find input := by
  rw [hfind]
  cases h with
  | untouched => exact hfind
  | blocked hmake => exact (FileTree.addsDirectories_makeDirectoryPath hmake).find_eq hfind
  | opened hmake hopens hcopies =>
    have hextends := (FileTree.addsDirectories_makeDirectoryPath hmake).toExtends
    refine FileTree.find_putFiles hcopies.free (fun file hfile hplace => ?_) (hextends.find_eq hfind)
    -- a copy that is put over the file has the path of the file
    obtain ⟨found, hlocate, -⟩ := FileTree.find_eq_ok_iff.1 hfind
    have hmade := hextends.locate_eq hlocate
    obtain ⟨copy, hcopy, hpath⟩ := hcopies.exists_written hfile
    refine hother copy hcopy ?_
    rw [hpath, hcopies.locate hopens hfile, hlocate, ← hmade, hplace]

/-! ### Steps -/

variable {settings : Settings} {request : Option OutputRequest} {input : Path}

/-- The work on one more input during a batch. -/
theorem run (h : Progress files (OutputTarget.batchDirectory settings.output request) here written)
    (hrequest : OutputTarget.requestedName? request = none)
    (hsuffix : '/' ∉ settings.output.suffix.toList)
    (hnone : collision? settings request written input = none) :
    Progress files (OutputTarget.batchDirectory settings.output request)
        ((Publication.run settings input request).ends here).1
        (record written (outcomeOf input ((Publication.run settings input request).ends here).2)) ∧
      Keeps written here ((Publication.run settings input request).ends here).1 := by
  rw [Publication.ends_run]
  cases hdraft : Publication.draft settings input request (here.find input) with
  | error error => exact ⟨h, fun _ _ => rfl⟩
  | ok draft =>
    obtain ⟨prepared, target⟩ := draft
    obtain ⟨-, -, -, -, htarget, -⟩ := Publication.draft_eq_ok_iff.1 hdraft
    obtain ⟨hdirectory, hdefault⟩ := (OutputTarget.resolve_eq_ok_iff hrequest).1 htarget
    -- no request names the copy, and a suffix without separators keeps its name a plain one
    have hname := OutputTarget.plainName_defaultName hsuffix hdefault
    rw [← hdirectory] at h ⊢
    have hsave := h.save hname (free_of_collision? hnone htarget) (Format.ofPath input)
      prepared.module
    dsimp only
    rcases hends : (Publication.save (Format.ofPath input) prepared.module target).ends here with
      ⟨left, error | digest⟩
    · rw [hends] at hsave
      exact ⟨hsave.failed error rfl, hsave.keeps⟩
    · rw [hends] at hsave
      exact ⟨hsave.saved digest rfl input, hsave.keeps⟩

/-- A step for one more input. -/
theorem step (h : Progress files (OutputTarget.batchDirectory settings.output request) here written)
    (hrequest : OutputTarget.requestedName? request = none)
    (hsuffix : '/' ∉ settings.output.suffix.toList) (input : Path) :
    Progress files (OutputTarget.batchDirectory settings.output request)
        (step settings request written input here).1
        (record written (step settings request written input here).2) ∧
      Keeps written here (step settings request written input here).1 := by
  rw [step_eq]
  cases hcollision : collision? settings request written input with
  | some error => exact ⟨h, fun _ _ => rfl⟩
  | none => exact h.run hrequest hsuffix hcollision

/-- The steps for some more inputs leave all copies as they are. -/
theorem steps (h : Progress files (OutputTarget.batchDirectory settings.output request) here written)
    (hrequest : OutputTarget.requestedName? request = none)
    (hsuffix : '/' ∉ settings.output.suffix.toList) (inputs : List Path) :
    Progress files (OutputTarget.batchDirectory settings.output request)
        (steps settings request written inputs here).1
        (recordAll written (steps settings request written inputs here).2) ∧
      Keeps written here (steps settings request written inputs here).1 := by
  induction inputs generalizing written here with
  | nil => exact ⟨h, fun _ _ => rfl⟩
  | cons input inputs ih =>
    obtain ⟨hstep, hkeeps⟩ := h.step hrequest hsuffix input
    obtain ⟨hsteps, hlater⟩ := ih hstep
    refine ⟨hsteps, fun copy hcopy => ?_⟩
    exact (hlater copy (mem_record hcopy _)).trans (hkeeps copy hcopy)

end Progress

end PublicAssembly.Batch
