import PublicAssembly.Proofs.Batch.Failures
import PublicAssembly.Proofs.Batch.Isolation

/-!
# The books of a batch

While a batch goes on, it keeps its outcomes, the number of those that are failures, and a record of
the copies that were written. The three always agree: an input fails because of an earlier copy
exactly if there is one at its target, and the exit code tells what the outcomes are.

## Main definitions

* `Batch.Taken`: an earlier copy is where the one of an input would go;
* `Batch.Collided`: an input failed for this reason;
* `Batch.Accounted`: what one step leaves of the files and of its input;
* `Batch.Bookkeeping`: what a batch leaves of the files and in its summary.

## Main statements

* `Batch.accounted_step`: every step of a batch is accounted for;
* `Batch.run_bookkeeping`: a batch keeps its books.
-/

namespace PublicAssembly

open Reading

namespace Outcome

/-- The input that the outcome belongs to. -/
def input : Outcome → Path
  | published publication => publication.input
  | failed input _ _ => input

/-- The path of the copy, if one was written. -/
def output? : Outcome → Option Path
  | published publication => some publication.output
  | failed _ _ _ => none

end Outcome

/-! ### Exit codes -/

namespace Summary

variable {summary : Summary}

/-- If the failures were counted and none has the exit code of success, the exit code tells whether
there is a failure. -/
theorem exitCode_eq_zero_iff
    (hcount : summary.failures = summary.outcomes.countP Outcome.isFailure)
    (hcodes : ∀ outcome ∈ summary.outcomes, ∀ input message code,
      outcome = .failed input message code → code ≠ 0) :
    summary.exitCode = 0 ↔ ∀ outcome ∈ summary.outcomes, outcome.isFailure = false := by
  rw [exitCode]
  split
  · next input message code hsingle =>
    rw [hsingle] at hcodes ⊢
    have hne := hcodes _ List.mem_cons_self input message code rfl
    simp [hne, Outcome.isFailure]
  · have hzero : min summary.failures 255 = 0 ↔ summary.failures = 0 := by omega
    rw [Int.natCast_eq_zero, hzero, hcount, List.countP_eq_zero]
    simp only [Bool.not_eq_true]

/-- The exit code of several inputs, or of none, is the number of failures up to a bound. -/
theorem exitCode_of_length_ne_one (h : summary.outcomes.length ≠ 1) :
    summary.exitCode = (min summary.failures 255 : Nat) := by
  rw [exitCode]
  split
  · next hsingle => exact absurd (congrArg List.length hsingle) h
  · rfl

end Summary

namespace Batch

variable {settings : Settings} {request : Option OutputRequest} {written : List Written}
  {before : List Outcome} {input : Path} {files : FileTree}

/-! ### Copies in the way -/

/-- The paths of the copies among some outcomes, in order. -/
def outputs (outcomes : List Outcome) : List Path :=
  outcomes.filterMap Outcome.output?

/-- The copy of an earlier input is where that of an input would go. -/
def Taken (settings : Settings) (request : Option OutputRequest) (before : List Outcome)
    (input : Path) : Prop :=
  ∃ target, OutputTarget.resolve settings.output input request = .ok target ∧
    ∃ output ∈ outputs before, output.sameAs target.path = true

/-- The outcome of an input is that the copy of an earlier one is where its own would go. -/
def Collided (settings : Settings) (request : Option OutputRequest) (input : Path)
    (outcome : Outcome) : Prop :=
  ∃ target earlier, OutputTarget.resolve settings.output input request = .ok target ∧
    outcome = .ofError input (.write target.path (.alreadyWritten earlier))

/-- The paths in the record are those of the copies, the last one first. -/
theorem map_output_recordAll (written : List Written) (outcomes : List Outcome) :
    (recordAll written outcomes).map Written.output =
      (outputs outcomes).reverse ++ written.map Written.output := by
  induction outcomes generalizing written with
  | nil => rfl
  | cons outcome outcomes ih =>
    rw [recordAll, List.foldl_cons, ← recordAll, ih]
    cases outcome <;> simp [outputs, record, Outcome.output?, List.filterMap_cons]

/-- A copy is in the way exactly if the record says so. -/
theorem taken_iff : Taken settings request before input ↔
    ∃ error, collision? settings request (recordAll [] before) input = some error := by
  -- the record is looked up from its last copy on, but any copy at the path will do
  have hrecord (path : Path) : (∃ output ∈ outputs before, output.sameAs path = true) ↔
      writtenAt? (recordAll [] before) path ≠ none := by
    have hmap := map_output_recordAll [] before
    rw [List.map_nil, List.append_nil] at hmap
    have hmem (output : Path) : output ∈ outputs before ↔
        ∃ copy ∈ recordAll [] before, copy.output = output := by
      rw [← List.mem_map, hmap, List.mem_reverse]
    rw [ne_eq, writtenAt?_eq_none_iff]
    simp [hmem]
  rw [Taken, collision?]
  cases OutputTarget.resolve settings.output input request with
  | error fault => simp
  | ok target =>
    have htarget := hrecord target.path
    cases hwritten : writtenAt? (recordAll [] before) target.path <;> simp_all

/-- The error of a copy being in the way says so. -/
theorem collided_of_collision? {error : Error}
    (h : collision? settings request written input = some error) :
    Collided settings request input (.ofError input error) := by
  rw [collision?] at h
  split at h
  · cases h
  · next target htarget =>
    obtain ⟨earlier, -, rfl⟩ := Option.map_eq_some_iff.1 h
    exact ⟨target, earlier, htarget, rfl⟩

/-- The work on an input never ends as if a copy were in the way. -/
theorem not_collided_run (settings : Settings) (request : Option OutputRequest) (input : Path)
    (files : FileTree) :
    ¬ Collided settings request input
      (outcomeOf input ((Publication.run settings input request).ends files).2) := by
  rintro ⟨target, earlier, htarget, houtcome⟩
  rcases hends : (Publication.run settings input request).ends files with
    ⟨left, error | publication⟩
  · rw [hends] at houtcome
    exact (Publication.fails_of_ends_run hends).ofError_ne htarget earlier houtcome
  · rw [hends] at houtcome
    cases houtcome

/-! ### Steps -/

/-- What a step leaves of the files and of its input, after some outcomes. -/
structure Accounted (settings : Settings) (request : Option OutputRequest)
    (here left : FileTree) (before : List Outcome) (input : Path) (outcome : Outcome) : Prop where
  /-- The outcome is that of the input. -/
  input_eq : outcome.input = input
  /-- The input fails because of an earlier copy exactly if there is one at its target. -/
  collided_iff : Collided settings request input outcome ↔ Taken settings request before input
  /-- It writes nothing then. -/
  unwritten : Taken settings request before input → left = here
  /-- Otherwise the work on the input is done, whatever inputs have failed before it. -/
  worked : ¬ Taken settings request before input →
    left = (Publication.run settings input request here).files ∧
      outcome = outcomeOf input (Publication.run settings input request here).result

/-- The outcome of a step is that of its input. -/
theorem input_step (settings : Settings) (request : Option OutputRequest) (written : List Written)
    (input : Path) (files : FileTree) :
    (step settings request written input files).2.input = input := by
  rw [step_eq]
  split
  · rfl
  · rcases hends : (Publication.run settings input request).ends files with
      ⟨left, error | publication⟩
    · rfl
    · exact (Publication.of_ends_run hends).1

/-- Every step of a batch is accounted for. -/
theorem accounted_step (settings : Settings) (request : Option OutputRequest)
    (before : List Outcome) (input : Path) (here : FileTree) :
    Accounted settings request here (step settings request (recordAll [] before) input here).1
      before input (step settings request (recordAll [] before) input here).2 := by
  have hinput := input_step settings request (recordAll [] before) input here
  rw [step_eq] at hinput ⊢
  -- either the name is taken and nothing is tried, or it is free and the work is done
  cases hcollision : collision? settings request (recordAll [] before) input with
  | some error =>
    have htaken : Taken settings request before input := taken_iff.2 ⟨error, hcollision⟩
    rw [hcollision] at hinput
    exact ⟨hinput, iff_of_true (collided_of_collision? hcollision) htaken, fun _ => rfl,
      fun hfree => absurd htaken hfree⟩
  | none =>
    have hfree : ¬ Taken settings request before input := by
      rw [taken_iff, hcollision]
      rintro ⟨error, hnone⟩
      cases hnone
    rw [hcollision] at hinput
    exact ⟨hinput, iff_of_false (not_collided_run settings request input here) hfree,
      fun htaken => absurd htaken hfree, fun _ => ⟨rfl, rfl⟩⟩

/-- The outcomes of some steps are those of their inputs, in order. -/
theorem map_input_steps (settings : Settings) (request : Option OutputRequest)
    (written : List Written) (inputs : List Path) (files : FileTree) :
    (steps settings request written inputs files).2.map Outcome.input = inputs := by
  induction inputs generalizing written files with
  | nil => rfl
  | cons input inputs ih => simp only [steps, List.map_cons, input_step, ih]

/-- No outcome of some steps is a failure with the exit code of success. -/
theorem exitCode_ne_zero_of_mem_steps (settings : Settings) (request : Option OutputRequest)
    (written : List Written) (inputs : List Path) (files : FileTree) :
    ∀ outcome ∈ (steps settings request written inputs files).2, ∀ path message code,
      outcome = .failed path message code → code ≠ 0 := by
  induction inputs generalizing written files with
  | nil => simp [steps]
  | cons input inputs ih =>
    refine List.forall_mem_cons.2 ⟨fun path message code hfailed => ?_, ih _ _⟩
    replace hfailed : (step settings request written input files).2 =
      .failed path message code := hfailed
    rw [step] at hfailed
    -- a failure has the exit code of its error, and no error has that of success
    rcases hends : (attempt settings request written input).ends files with
      ⟨left, error | publication⟩
    · rw [hends] at hfailed
      cases hfailed
      exact Int.ne_of_gt (Error.exitCode_pos error)
    · rw [hends] at hfailed
      cases hfailed

/-- The steps up to some input, and that for the input. -/
theorem steps_split (settings : Settings) (request : Option OutputRequest)
    (earlier later : List Path) (input : Path) (files : FileTree) :
    ∃ before outcome after,
      (steps settings request [] (earlier ++ input :: later) files).2 =
          before ++ outcome :: after ∧
        before.length = earlier.length ∧
        Accounted settings request (runAll settings request [] earlier files).files
          (runAll settings request [] (earlier ++ [input]) files).files before input outcome := by
  have hfiles (inputs : List Path) : (runAll settings request [] inputs files).files =
      (steps settings request [] inputs files).1 :=
    congrArg Prod.fst (ends_runAll settings request [] inputs files)
  rw [hfiles, hfiles, steps_append, steps_append]
  exact ⟨_, _, _, rfl, length_steps settings request [] earlier files,
    accounted_step settings request _ input _⟩

/-! ### Batches -/

/-- What a batch of some inputs leaves of the files and in its summary. -/
structure Bookkeeping (settings : Settings) (request : Option OutputRequest) (files : FileTree)
    (inputs : List Path) (summary : Summary) : Prop where
  /-- There is one outcome for each input, in order. -/
  inputs_eq : summary.outcomes.map Outcome.input = inputs
  /-- The failures were counted. -/
  failures_eq : summary.failures = summary.outcomes.countP Outcome.isFailure
  /-- All other inputs have copies. -/
  length_outputs : (outputs summary.outcomes).length + summary.failures = inputs.length
  /-- No two copies have the same path. -/
  outputs_apart : (outputs summary.outcomes).Pairwise fun one other => one.sameAs other = false
  /-- Every input is accounted for by one step, after the steps for the inputs before it. -/
  accounted : ∀ earlier input later, inputs = earlier ++ input :: later →
    ∃ before outcome after, summary.outcomes = before ++ outcome :: after ∧
      before.length = earlier.length ∧
      Accounted settings request (runAll settings request [] earlier files).files
        (runAll settings request [] (earlier ++ [input]) files).files before input outcome
  /-- The exit code is that of success exactly if no input failed. -/
  exitCode_eq_zero_iff :
    summary.exitCode = 0 ↔ ∀ outcome ∈ summary.outcomes, outcome.isFailure = false
  /-- A single input that failed has the exit code of its error. -/
  exitCode_of_single : ∀ input error, inputs = [input] →
    (Publication.run settings input request files).result = .error error →
      summary.exitCode = error.exitCode
  /-- Otherwise the exit code is the number of failures up to a bound. -/
  exitCode_of_several : inputs.length ≠ 1 → summary.exitCode = (min summary.failures 255 : Nat)

/-- Every outcome is a copy or a failure. -/
theorem length_outputs_add_countP (outcomes : List Outcome) :
    (outputs outcomes).length + outcomes.countP Outcome.isFailure = outcomes.length := by
  induction outcomes with
  | nil => rfl
  | cons outcome outcomes ih =>
    rw [outputs] at ih ⊢
    rw [List.filterMap_cons, List.countP_cons, List.length_cons]
    cases outcome <;> simp [Outcome.output?, Outcome.isFailure] <;> omega

/-- The copies of some steps have different paths. -/
theorem outputs_steps_apart (settings : Settings) (request : Option OutputRequest)
    (inputs : List Path) (files : FileTree) :
    (outputs (steps settings request [] inputs files).2).Pairwise
      fun one other => one.sameAs other = false := by
  have hapart : Apart (recordAll [] (steps settings request [] inputs files).2) :=
    apart_recordAll List.Pairwise.nil inputs
  have houtputs : ((recordAll [] (steps settings request [] inputs files).2).map
      Written.output).Pairwise fun one other => one.sameAs other = false :=
    List.pairwise_map.2 hapart
  rw [map_output_recordAll, List.map_nil, List.append_nil, List.pairwise_reverse] at houtputs
  -- the record lists the copies from behind, so the paths are compared the other way round
  refine houtputs.imp fun hdiffer => ?_
  rw [Path.sameAs, beq_eq_false_iff_ne] at hdiffer ⊢
  exact hdiffer.symm

/-- The steps for some inputs leave a summary that agrees with them. -/
theorem bookkeeping_steps (settings : Settings) (request : Option OutputRequest)
    (inputs : List Path) (files : FileTree) :
    Bookkeeping settings request files inputs
      ⟨(steps settings request [] inputs files).2,
        (steps settings request [] inputs files).2.countP Outcome.isFailure⟩ where
  inputs_eq := map_input_steps settings request [] inputs files
  failures_eq := rfl
  length_outputs := by
    rw [length_outputs_add_countP, length_steps]
  outputs_apart := outputs_steps_apart settings request inputs files
  accounted := by
    rintro earlier input later rfl
    exact steps_split settings request earlier later input files
  exitCode_eq_zero_iff := Summary.exitCode_eq_zero_iff rfl
    (exitCode_ne_zero_of_mem_steps settings request [] inputs files)
  exitCode_of_single := by
    rintro input error rfl herror
    -- nothing stands before a single input, so its own work is done
    have hfree : ¬ Taken settings request [] input := by
      rintro ⟨target, -, output, houtput, -⟩
      cases houtput
    obtain ⟨-, houtcome⟩ := (accounted_step settings request [] input files).worked hfree
    rw [herror] at houtcome
    have hsteps : (steps settings request [] [input] files).2 = [.ofError input error] :=
      congrArg (fun outcome => [outcome]) houtcome
    rw [hsteps]
    rfl
  exitCode_of_several := by
    intro hlength
    refine Summary.exitCode_of_length_ne_one ?_
    rwa [length_steps]

/-- A batch keeps its books, whatever its inputs are and whatever becomes of them. -/
theorem run_bookkeeping (settings : Settings) (inputs : List Path)
    (request : Option OutputRequest) (files : FileTree) :
    ∃ summary, (run settings inputs request files).result = .ok summary ∧
      (run settings inputs request files).files =
        (runAll settings (sharedRequest (settings.search.expand files inputs) request) []
          (settings.search.expand files inputs) files).files ∧
      Bookkeeping settings (sharedRequest (settings.search.expand files inputs) request) files
        (settings.search.expand files inputs) summary := by
  have hends := ends_run settings inputs request files
  have hall := ends_runAll settings
    (sharedRequest (settings.search.expand files inputs) request) []
    (settings.search.expand files inputs) files
  refine ⟨_, congrArg Prod.snd hends, ?_, bookkeeping_steps _ _ _ _⟩
  exact (congrArg Prod.fst hends).trans (congrArg Prod.fst hall).symm

end Batch

end PublicAssembly
