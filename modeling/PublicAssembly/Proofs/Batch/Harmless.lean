import PublicAssembly.Proofs.Batch.Bookkeeping

/-!
# What failures leave of the files

The work on an input changes files in two places: it makes the directory of the copy, and at the end
it writes the copy. A failure before the first leaves all as it was, and a failure between the two
leaves perhaps some directories, but no file that was not there. So an input of a batch that fails in
one of these ways takes nothing from the files, and nothing from the copies of the inputs before it.

## Main definitions

* `Error.Early`, `Error.Unwritten`: the errors of the failures before each of the two places;
* `Publication.Failed`: what a failure leaves of the files;
* `Batch.FailsAt`: an input of a batch fails behind some others;
* `Batch.SparesFiles`: what is left where inputs of a batch fail.

## Main statements

* `Publication.failed_of_ends_run`: what is left when the work on an input fails;
* `Batch.runAll_induction`: what is true of every step of a batch is true of some steps together;
* `Batch.run_sparesFiles`: what the failures of a batch leave of the files.
-/

namespace PublicAssembly

open Reading

namespace Error

/-- The error says that nothing was done: the input cannot be used, or its copy would go where an
earlier one is. -/
inductive Early : Error → Prop where
  /-- The input is no file. -/
  | notFound (path : Path) : Early (.notFound path)
  /-- The file holds no module. -/
  | read (path : Path) (fault : ReadFault) : Early (.read path fault)
  /-- The input has no target. -/
  | argument (fault : ArgumentFault) : Early (.argument fault)
  /-- An earlier copy is at the target. -/
  | collision (path earlier : Path) : Early (.write path (.alreadyWritten earlier))

/-- The error says that the copy was not begun: there is no directory for it, or the module does not
fit into its image. -/
inductive Unwritten : Error → Prop where
  /-- The directory cannot be made. -/
  | createDirectory (path : Path) (fault : Files.Fault) : Unwritten (.createDirectory path fault)
  /-- The module does not fit into its image. -/
  | image (path : Path) (fault : Image.Fault) : Unwritten (.write path (.image fault))
  /-- The module has no image. -/
  | noImage (path : Path) : Unwritten (.write path .noImage)

end Error

namespace Publication

/-- What a failure with the error leaves of the files. -/
structure Failed (error : Error) (here left : FileTree) : Prop where
  /-- The failure is early, or the copy was not begun, or it could not be written. -/
  kind : error.Early ∨ error.Unwritten ∨ ∃ path fault, error = .write path (.files fault)
  /-- An early failure leaves all as it was. -/
  eq_of_early : error.Early → left = here
  /-- If the copy was not begun, there may be more directories, but the files are as they were. -/
  addsDirectories : error.Early ∨ error.Unwritten → here.AddsDirectories left
  /-- Whatever could be read is read the same then. -/
  read_eq : error.Early ∨ error.Unwritten → ∀ path content, here.read path = .ok content →
    left.read path = .ok content

/-- A failure that leaves the files as they were, but for some more directories. -/
theorem Failed.of_addsDirectories {error : Error} {here left : FileTree}
    (hkind : error.Early ∨ error.Unwritten ∨ ∃ path fault, error = .write path (.files fault))
    (hearly : error.Early → left = here) (hadds : here.AddsDirectories left) :
    Failed error here left :=
  ⟨hkind, hearly, fun _ => hadds, fun _ _ _ hread => hadds.toExtends.read_eq hread⟩

/-- A failure of which nothing is left. -/
theorem Failed.refl {error : Error} (h : error.Early) (files : FileTree) :
    Failed error files files :=
  .of_addsDirectories (.inl h) (fun _ => rfl) (.refl files)

/-- An error of a module that cannot be encoded says that the copy was not begun. -/
theorem unwritten_of_encode {format : Format} {m : Module} {path : Path} {error : Error}
    (h : format.encode m path = .error error) : error.Unwritten := by
  cases format with
  | json => cases h
  | image =>
    rw [Format.encode] at h
    split at h
    · cases h
      exact .noImage path
    · obtain ⟨fault, -, rfl⟩ := mapError_eq_error_iff.1 h
      exact .image path fault

variable {settings : Settings} {input : Path} {request : Option OutputRequest}
  {files left : FileTree} {error : Error}

/-- What is left when a module is not saved: the directory, as far as it could be made. -/
theorem failed_of_ends_save {format : Format} {m : Module} {target : OutputTarget}
    (h : (save format m target).ends files = (left, .error error)) : Failed error files left := by
  have hfinal {path : Path} {fault : Files.Fault} {left : FileTree} :
      Failed (.write path (.files fault)) files left := by
    refine ⟨.inr (.inr ⟨path, fault, rfl⟩), ?_, ?_, ?_⟩
    · rintro ⟨⟩
    · rintro (⟨⟨⟩⟩ | ⟨⟨⟩⟩)
    · rintro (⟨⟨⟩⟩ | ⟨⟨⟩⟩)
  have hunwritten (hkind : error.Unwritten) (hadds : files.AddsDirectories left) :
      Failed error files left := by
    refine .of_addsDirectories (.inr (.inl hkind)) (fun hearly => ?_) hadds
    cases hkind <;> cases hearly
  -- the cases are the places where saving stops: the directory, the encoding, the copy itself
  rw [ends_save] at h
  split at h
  · next made fault hmake =>
    cases h
    exact hunwritten (.createDirectory _ _) (FileTree.addsDirectories_makeDirectoryPath hmake)
  · next made hmake =>
    split at h
    · next hencode =>
      cases h
      exact hunwritten (unwritten_of_encode hencode)
        (FileTree.addsDirectories_makeDirectoryPath hmake)
    · split at h
      · cases h
        exact hfinal
      · next saved _ =>
        cases hread : saved.read target.path with
        | ok content =>
          rw [hread] at h
          cases h
        | error fault =>
          rw [hread] at h
          cases h
          exact hfinal

/-- What is left when the work on an input fails. -/
theorem failed_of_ends_run (h : (run settings input request).ends files = (left, .error error)) :
    Failed error files left := by
  rw [ends_run] at h
  cases hdraft : draft settings input request (files.find input) with
  | error fault =>
    -- nothing is written before the module and its target are there
    rw [hdraft] at h
    cases h
    apply Failed.refl
    obtain rfl | ⟨fault, rfl⟩ | ⟨fault, rfl⟩ := draft_eq_error hdraft
    · exact .notFound input
    · exact .read input fault
    · exact .argument fault
  | ok drafted =>
    obtain ⟨prepared, target⟩ := drafted
    rw [hdraft] at h
    rcases hsave : (save (Format.ofPath input) prepared.module target).ends files with
      ⟨saved, fault | digest⟩
    · simp only [hsave] at h
      cases h
      exact failed_of_ends_save hsave
    · simp only [hsave] at h
      cases h

end Publication

namespace Batch

open Publication (Failed)

variable {settings : Settings} {request : Option OutputRequest} {files : FileTree}
  {earlier : List Path} {input : Path} {error : Error}

/-! ### Steps -/

/-- What is left when an input of a batch fails, behind some copies. -/
theorem failed_of_ends_attempt {written : List Written} {left : FileTree}
    (h : (attempt settings request written input).ends files = (left, .error error)) :
    Failed error files left := by
  rw [ends_attempt] at h
  split at h
  · next hcollision =>
    cases h
    -- a name that is taken is the earliest failure: nothing was touched
    rw [collision?] at hcollision
    split at hcollision
    · cases hcollision
    · next target _ =>
      obtain ⟨copy, -, rfl⟩ := Option.map_eq_some_iff.1 hcollision
      exact .refl (.collision target.path copy) files
  · exact Publication.failed_of_ends_run h

/-- The input fails with the error, behind some earlier ones of a batch. -/
def FailsAt (settings : Settings) (request : Option OutputRequest) (files : FileTree)
    (earlier : List Path) (input : Path) (error : Error) : Prop :=
  ∃ before, (runAll settings request [] earlier files).result = .ok before ∧
    (attempt settings request (recordAll [] before) input
      (runAll settings request [] earlier files).files).result = .error error

/-- The work on an input behind some earlier ones, as a step. -/
theorem exists_step (settings : Settings) (request : Option OutputRequest) (files : FileTree)
    (earlier : List Path) (input : Path) :
    ∃ before, (runAll settings request [] earlier files).result = .ok before ∧
      before.length = earlier.length ∧
      (runAll settings request [] (earlier ++ [input]) files).files =
        ((attempt settings request (recordAll [] before) input).ends
          (runAll settings request [] earlier files).files).1 ∧
      ∀ later, (steps settings request [] (earlier ++ input :: later) files).2[earlier.length]? =
        some (outcomeOf input ((attempt settings request (recordAll [] before) input).ends
          (runAll settings request [] earlier files).files).2) := by
  have hends (inputs : List Path) := ends_runAll settings request [] inputs files
  have hfiles (inputs : List Path) := congrArg Prod.fst (hends inputs)
  have hlength := length_steps settings request [] earlier files
  dsimp only [Run.ends] at hfiles
  refine ⟨_, congrArg Prod.snd (hends earlier), hlength, ?_, fun later => ?_⟩
  · rw [hfiles, hfiles, steps_append]
    rfl
  · -- the outcome of the input stands behind those of the earlier ones
    rw [hfiles, steps_append, ← hlength]
    simp only [steps, List.getElem?_append_right (Nat.le_refl _), Nat.sub_self,
      List.getElem?_cons_zero]
    rfl

/-- What is left where an input of a batch fails. -/
theorem FailsAt.failed (h : FailsAt settings request files earlier input error) :
    Failed error (runAll settings request [] earlier files).files
      (runAll settings request [] (earlier ++ [input]) files).files := by
  obtain ⟨before, hbefore, herror⟩ := h
  obtain ⟨same, hsame, -, hleft, -⟩ := exists_step settings request files earlier input
  cases hbefore.symm.trans hsame
  -- what is left behind the input is what its own work leaves
  rw [hleft]
  exact failed_of_ends_attempt (Prod.ext rfl herror)

/-- What every step for some inputs does, the steps do together. -/
theorem runAll_induction (related : FileTree → FileTree → Prop) (hrefl : ∀ tree, related tree tree)
    (htrans : ∀ tree between left, related tree between → related between left → related tree left)
    (earlier inputs : List Path)
    (hstep : ∀ front input behind, inputs = front ++ input :: behind →
      related (runAll settings request [] (earlier ++ front) files).files
        (runAll settings request [] (earlier ++ front ++ [input]) files).files) :
    related (runAll settings request [] earlier files).files
      (runAll settings request [] (earlier ++ inputs) files).files := by
  induction inputs generalizing earlier with
  | nil =>
    rw [List.append_nil]
    exact hrefl _
  | cons input inputs ih =>
    -- the first input is one more of the earlier ones for the rest
    have hfirst := hstep [] input inputs rfl
    rw [List.append_nil] at hfirst
    refine htrans _ _ _ hfirst ?_
    have hrest := ih (earlier ++ [input]) fun front next behind hsplit => by
      have hnext := hstep (input :: front) next behind (by rw [hsplit, List.cons_append])
      rwa [List.append_assoc earlier [input] front, List.singleton_append]
    rwa [List.append_assoc, List.singleton_append] at hrest

/-! ### Batches -/

/-- What is left of the files where inputs of a batch fail. Of a copy that could not be written nothing
is said. -/
structure SparesFiles (settings : Settings) (request : Option OutputRequest) (files : FileTree)
    (inputs : List Path) (summary : Summary) : Prop where
  /-- The outcome of an input says whether it failed, and with which error. -/
  outcome : ∀ earlier input later, inputs = earlier ++ input :: later →
    ∃ outcome, summary.outcomes[earlier.length]? = some outcome ∧
      (outcome.isFailure = true ↔ ∃ error, FailsAt settings request files earlier input error) ∧
      ∀ error, FailsAt settings request files earlier input error → outcome = .ofError input error
  /-- One input that fails leaves of the files what its error says. -/
  failed : ∀ earlier input error, FailsAt settings request files earlier input error →
    Failed error (runAll settings request [] earlier files).files
      (runAll settings request [] (earlier ++ [input]) files).files
  /-- Inputs that fail early, one after another, leave all as it was. -/
  eq_of_early : ∀ earlier failing,
    (∀ front input behind, failing = front ++ input :: behind →
      ∃ error, FailsAt settings request files (earlier ++ front) input error ∧ error.Early) →
    (runAll settings request [] (earlier ++ failing) files).files =
      (runAll settings request [] earlier files).files
  /-- Inputs that fail before their copies are begun, one after another, leave the files as they
  were. -/
  addsDirectories : ∀ earlier failing,
    (∀ front input behind, failing = front ++ input :: behind →
      ∃ error, FailsAt settings request files (earlier ++ front) input error ∧
        (error.Early ∨ error.Unwritten)) →
    (runAll settings request [] earlier files).files.AddsDirectories
      (runAll settings request [] (earlier ++ failing) files).files

/-- The outcome of an input says whether it failed. -/
theorem isFailure_outcomeOf (input : Path) (result : Except Error Publication) :
    (outcomeOf input result).isFailure = true ↔ ∃ error, result = .error error := by
  cases result <;> simp [outcomeOf, Outcome.ofError, Outcome.isFailure]

/-- What is left of the files where inputs of some steps fail. -/
theorem sparesFiles_steps (settings : Settings) (request : Option OutputRequest) (files : FileTree)
    (inputs : List Path) (failures : Nat) :
    SparesFiles settings request files inputs
      ⟨(steps settings request [] inputs files).2, failures⟩ where
  outcome := by
    rintro earlier input later rfl
    obtain ⟨before, hbefore, -, -, houtcome⟩ := exists_step settings request files earlier input
    -- the outcomes before an input are the only ones, so that its failure is what its attempt gives
    -- here
    have hfails (error : Error) : FailsAt settings request files earlier input error ↔
        ((attempt settings request (recordAll [] before) input).ends
          (runAll settings request [] earlier files).files).2 = .error error := by
      constructor
      · rintro ⟨same, hsame, herror⟩
        cases hbefore.symm.trans hsame
        exact herror
      · intro herror
        exact ⟨before, hbefore, herror⟩
    refine ⟨_, houtcome later, ?_, fun error herror => ?_⟩
    · simp only [isFailure_outcomeOf, hfails]
    · rw [(hfails error).1 herror]
      rfl
  failed _ _ _ h := h.failed
  eq_of_early earlier failing hfailing := by
    -- along the failing inputs, each of which finds the files as they were before the first
    apply runAll_induction (fun here left => left = here) (fun _ => rfl)
      (fun _ _ _ h h' => h'.trans h) earlier failing
    intro front input behind hsplit
    obtain ⟨error, hfails, hearly⟩ := hfailing front input behind hsplit
    exact hfails.failed.eq_of_early hearly
  addsDirectories earlier failing hfailing := by
    apply runAll_induction FileTree.AddsDirectories .refl (fun _ _ _ => .trans) earlier failing
    intro front input behind hsplit
    obtain ⟨error, hfails, hkind⟩ := hfailing front input behind hsplit
    exact hfails.failed.addsDirectories hkind

/-- An input that fails leaves the files as they were, but for some more directories, unless the
copy itself cannot be written; and so do the inputs of a batch that fail, wherever they stand among
the others, of which the copies stay. -/
theorem run_sparesFiles (settings : Settings) (files : FileTree) :
    (∀ input request error, (Publication.run settings input request files).result = .error error →
      Failed error files (Publication.run settings input request files).files) ∧
    ∀ inputs request, ∃ summary, (run settings inputs request files).result = .ok summary ∧
      (run settings inputs request files).files =
        (runAll settings (sharedRequest (settings.search.expand files inputs) request) []
          (settings.search.expand files inputs) files).files ∧
      SparesFiles settings (sharedRequest (settings.search.expand files inputs) request) files
        (settings.search.expand files inputs) summary := by
  constructor
  · intro input request error herror
    exact Publication.failed_of_ends_run (Prod.ext rfl herror)
  · intro inputs request
    have hends := ends_run settings inputs request files
    have hall := ends_runAll settings
      (sharedRequest (settings.search.expand files inputs) request) []
      (settings.search.expand files inputs) files
    refine ⟨_, congrArg Prod.snd hends, ?_, sparesFiles_steps _ _ _ _ _⟩
    exact (congrArg Prod.fst hends).trans (congrArg Prod.fst hall).symm

/-- The third of the sample inputs would be written over the copy of the first, and fails without a
trace. A directory that cannot be made leaves one that could, and no file. -/
theorem run_sparesFiles_sampleInputs :
    (∃ error, FailsAt {} sampleRequest sampleFiles (sampleInputs.take 2) ⟨"b/Lib.json"⟩ error ∧
      error.Early ∧
      (runAll {} sampleRequest [] (sampleInputs.take 2 ++ [⟨"b/Lib.json"⟩]) sampleFiles).files =
        (runAll {} sampleRequest [] (sampleInputs.take 2) sampleFiles).files) ∧
    ∃ left, (Publication.run {} ⟨"a/Lib.json"⟩ (some (.ofDirectory ⟨"new/../f/x"⟩))
        sampleFiles).files = left ∧
      left.hasDirectory ⟨"new"⟩ = true ∧ sampleFiles.AddsDirectories left := by
  constructor
  · have htry : okAnd (fun before =>
        decide ((attempt {} sampleRequest (recordAll [] before) ⟨"b/Lib.json"⟩
          (runAll {} sampleRequest [] (sampleInputs.take 2) sampleFiles).files).result =
            .error (.write ⟨"out/Lib_publicized.json"⟩ (.alreadyWritten ⟨"a/Lib.json"⟩))))
        (runAll {} sampleRequest [] (sampleInputs.take 2) sampleFiles).result = true := by
      decide +kernel
    obtain ⟨before, hbefore, herror⟩ := okAnd_eq_true_iff.1 htry
    have hfails : FailsAt {} sampleRequest sampleFiles (sampleInputs.take 2) ⟨"b/Lib.json"⟩ _ :=
      ⟨before, hbefore, of_decide_eq_true herror⟩
    have hearly : Error.Early (.write ⟨"out/Lib_publicized.json"⟩
        (.alreadyWritten ⟨"a/Lib.json"⟩)) := .collision _ _
    have hshared : sharedRequest (({} : Settings).search.expand sampleFiles sampleInputs)
        sampleRequest = sampleRequest := by
      decide +kernel
    obtain ⟨summary, -, -, hspares⟩ := (run_sparesFiles {} sampleFiles).2 sampleInputs sampleRequest
    rw [hshared] at hspares
    exact ⟨_, hfails, hearly, (hspares.failed _ _ _ hfails).eq_of_early hearly⟩
  · have hresult : (Publication.run {} ⟨"a/Lib.json"⟩ (some (.ofDirectory ⟨"new/../f/x"⟩))
        sampleFiles).result = .error (.createDirectory ⟨"new/../f/x"⟩ .alreadyExists) := by
      decide +kernel
    have hfailed := (run_sparesFiles {} sampleFiles).1 _ _ _ hresult
    refine ⟨_, rfl, by decide +kernel, ?_⟩
    exact hfailed.addsDirectories (.inr (.createDirectory _ _))

end Batch

end PublicAssembly
