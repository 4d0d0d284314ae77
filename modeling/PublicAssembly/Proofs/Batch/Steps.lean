import PublicAssembly.Batch.Basic
import PublicAssembly.Proofs.Batch.Publication

/-!
# Batches step by step

A batch is one step for each input, from the files and the copies that the steps before it left. No
step fails: what fails is the work on an input, and that is what the step finds out.

## Main definitions

* `Batch.step`: what becomes of the files and of one input;
* `Batch.steps`: what becomes of the files and of some inputs, one after another.

## Main statements

* `Batch.ends_runAll`: a batch is its steps;
* `Batch.steps_append`: the steps for some inputs are followed by those for the others;
* `Batch.apart_recordAll`: no two copies of a batch have the same path.
-/

namespace PublicAssembly.Batch

open Reading

variable {settings : Settings} {request : Option OutputRequest} {written : List Written}
  {input : Path} {files : FileTree}

/-! ### Collisions -/

/-- The error of an input whose copy would go where an earlier one is. -/
def collision? (settings : Settings) (request : Option OutputRequest) (written : List Written)
    (input : Path) : Option Error :=
  match OutputTarget.resolve settings.output input request with
  | .error _ => none
  | .ok target =>
    (writtenAt? written target.path).map fun earlier => .write target.path (.alreadyWritten earlier)

/-- The work on an input of a batch is the work on it alone, unless there is a collision. -/
theorem ends_attempt (settings : Settings) (request : Option OutputRequest) (written : List Written)
    (input : Path) (files : FileTree) :
    (attempt settings request written input).ends files =
      match collision? settings request written input with
      | some error => (files, .error error)
      | none => (Publication.run settings input request).ends files := by
  rw [attempt, Run.ends_bind, checkCollision, Run.ends_say_bind, collision?]
  cases OutputTarget.resolve settings.output input request with
  | error fault => rfl
  | ok target =>
    dsimp only
    cases writtenAt? written target.path <;> rfl

/-! ### Steps -/

/-- What becomes of an input on which the work had a result. -/
def outcomeOf (input : Path) : Except Error Publication → Outcome
  | .ok publication => .published publication
  | .error error => .ofError input error

/-- What becomes of the files and of one input. -/
def step (settings : Settings) (request : Option OutputRequest) (written : List Written)
    (input : Path) (files : FileTree) : FileTree × Outcome :=
  ((attempt settings request written input).ends files).map id (outcomeOf input)

/-- A step is the work on the input alone, unless there is a collision. -/
theorem step_eq (settings : Settings) (request : Option OutputRequest) (written : List Written)
    (input : Path) (files : FileTree) :
    step settings request written input files =
      match collision? settings request written input with
      | some error => (files, .ofError input error)
      | none => ((Publication.run settings input request).ends files).map id (outcomeOf input) := by
  rw [step, ends_attempt]
  cases collision? settings request written input <;> rfl

/-- What becomes of the files and of some inputs, one after another. -/
def steps (settings : Settings) (request : Option OutputRequest) :
    List Written → List Path → FileTree → FileTree × List Outcome
  | _, [], files => (files, [])
  | written, input :: inputs, files =>
    let (here, outcome) := step settings request written input files
    let (left, outcomes) := steps settings request (record written outcome) inputs here
    (left, outcome :: outcomes)

/-- What was written, after some more outcomes. -/
def recordAll (written : List Written) (outcomes : List Outcome) : List Written :=
  outcomes.foldl record written

/-- The work on one input never stops a batch. -/
theorem ends_runOne (settings : Settings) (request : Option OutputRequest) (written : List Written)
    (input : Path) (files : FileTree) :
    (runOne settings request written input).ends files =
      ((step settings request written input files).1,
        .ok (step settings request written input files).2) := by
  rw [Run.ends, runOne, step, Run.ends]
  rcases attempt settings request written input files with ⟨left, log, error | publication⟩ <;> rfl

/-- A batch is its steps. -/
theorem ends_runAll (settings : Settings) (request : Option OutputRequest) (written : List Written)
    (inputs : List Path) (files : FileTree) :
    (runAll settings request written inputs).ends files =
      ((steps settings request written inputs files).1,
        .ok (steps settings request written inputs files).2) := by
  induction inputs generalizing written files with
  | nil => rfl
  | cons input inputs ih =>
    rw [runAll, Run.ends_bind, ends_runOne]
    dsimp only
    rw [Run.ends_bind, ih]
    rfl

/-- The steps for some inputs are followed by those for the others. -/
theorem steps_append (settings : Settings) (request : Option OutputRequest) (written : List Written)
    (earlier later : List Path) (files : FileTree) :
    steps settings request written (earlier ++ later) files =
      let first := steps settings request written earlier files
      let second := steps settings request (recordAll written first.2) later first.1
      (second.1, first.2 ++ second.2) := by
  induction earlier generalizing written files with
  | nil => rfl
  | cons input earlier ih =>
    simp only [List.cons_append, steps, ih]
    rfl

/-- Every input has its outcome. -/
theorem length_steps (settings : Settings) (request : Option OutputRequest) (written : List Written)
    (inputs : List Path) (files : FileTree) :
    (steps settings request written inputs files).2.length = inputs.length := by
  induction inputs generalizing written files with
  | nil => rfl
  | cons input inputs ih => simp only [steps, List.length_cons, ih]

/-! ### Copies -/

/-- What a step publishes is a copy at the target of its input, and there was no collision. -/
theorem step_eq_published {publication : Publication} {left : FileTree}
    (h : step settings request written input files = (left, .published publication)) :
    collision? settings request written input = none ∧
      ∃ target, OutputTarget.resolve settings.output input request = .ok target ∧
        publication.output = target.path := by
  rw [step_eq] at h
  split at h
  · cases h
  · next hnone =>
    rcases hends : (Publication.run settings input request).ends files with ⟨ran, error | found⟩
    · rw [hends] at h
      cases h
    · rw [hends] at h
      cases h
      exact ⟨hnone, (Publication.of_ends_run hends).2⟩

/-- Copies that were recorded stay in the record. -/
theorem mem_record {copy : Written} (h : copy ∈ written) (outcome : Outcome) :
    copy ∈ record written outcome := by
  cases outcome with
  | published publication => exact List.mem_cons_of_mem _ h
  | failed path message exitCode => exact h

/-- No two copies have the same path. -/
def Apart (written : List Written) : Prop :=
  written.Pairwise fun one other => one.output.sameAs other.output = false

theorem writtenAt?_eq_none_iff {path : Path} :
    writtenAt? written path = none ↔ ∀ copy ∈ written, copy.output.sameAs path = false := by
  simp [writtenAt?]

/-- Where there is no collision, no copy is at the target. -/
theorem free_of_collision? (h : collision? settings request written input = none)
    {target : OutputTarget} (htarget : OutputTarget.resolve settings.output input request = .ok target) :
    ∀ copy ∈ written, copy.output.sameAs target.path = false := by
  rw [collision?, htarget, Option.map_eq_none_iff] at h
  exact writtenAt?_eq_none_iff.1 h

/-- A step leaves the copies apart. -/
theorem apart_record (hapart : Apart written) :
    Apart (record written (step settings request written input files).2) := by
  rcases hstep : step settings request written input files with ⟨left, publication | _⟩
  · obtain ⟨hnone, target, htarget, houtput⟩ := step_eq_published hstep
    refine List.pairwise_cons.2 ⟨fun copy hcopy => ?_, hapart⟩
    have hdiffer := free_of_collision? hnone htarget copy hcopy
    rw [Path.sameAs, beq_eq_false_iff_ne] at hdiffer ⊢
    rw [houtput]
    exact hdiffer.symm
  · exact hapart

/-- The copies of a batch are apart. -/
theorem apart_recordAll (hapart : Apart written) (inputs : List Path) :
    Apart (recordAll written (steps settings request written inputs files).2) := by
  induction inputs generalizing written files with
  | nil => exact hapart
  | cons input inputs ih => exact ih (apart_record hapart)

end PublicAssembly.Batch
