import PublicAssembly.Batch.Inputs
import PublicAssembly.Batch.Publication

/-!
# Batches

Some inputs are worked on one after another. One that fails does not stop the others, and no input
writes where an earlier one has written.
-/

namespace PublicAssembly

/-- What became of an input. -/
inductive Outcome where
  /-- A copy was written. -/
  | published (publication : Publication)
  /-- The work on the input failed. -/
  | failed (input : Path) (message : String) (exitCode : Int)
  deriving DecidableEq, Repr

namespace Outcome

/-- The work on the input failed. -/
def isFailure : Outcome → Bool
  | published _ => false
  | failed _ _ _ => true

/-- The outcome of a failure. -/
def ofError (input : Path) (error : Error) : Outcome :=
  failed input error.message error.exitCode

end Outcome

/-- What became of a batch. -/
structure Summary where
  /-- What became of each input, in order. -/
  outcomes : List Outcome := []
  /-- The number of inputs that failed. -/
  failures : Nat := 0
  deriving DecidableEq, Repr

namespace Summary

/-- One more outcome; a failure is counted. -/
def push (summary : Summary) (outcome : Outcome) : Summary where
  outcomes := summary.outcomes ++ [outcome]
  failures := if outcome.isFailure then summary.failures + 1 else summary.failures

/-- After some more outcomes, the failures among them have been counted. -/
theorem foldl_push (summary : Summary) (outcomes : List Outcome) :
    outcomes.foldl push summary =
      ⟨summary.outcomes ++ outcomes, summary.failures + outcomes.countP Outcome.isFailure⟩ := by
  induction outcomes generalizing summary with
  | nil => simp
  | cons outcome outcomes ih =>
    rw [List.foldl_cons, ih, push, List.countP_cons, List.append_assoc, List.singleton_append]
    cases outcome.isFailure with
    | false => simp
    | true => simp [Nat.add_right_comm, Nat.add_assoc]

/-- The exit code of a batch: that of the failure if there is one input, and otherwise the number of
failures as far as an exit code can tell it. -/
def exitCode (summary : Summary) : Int :=
  match summary.outcomes with
  | [.failed _ _ exitCode] => exitCode
  | _ => (min summary.failures 255 : Nat)

end Summary

/-- A copy that was written: its path, and the path of its input. -/
structure Written where
  /-- The path of the copy. -/
  output : Path
  /-- The path of the input. -/
  input : Path
  deriving DecidableEq, Repr

namespace Batch

/-- The input whose copy is at a path. -/
def writtenAt? (written : List Written) (path : Path) : Option Path :=
  (written.find? fun copy => copy.output.sameAs path).map Written.input

/-- Fail if an earlier input has written where this one would. -/
def checkCollision (settings : Settings) (input : Path) (request : Option OutputRequest)
    (written : List Written) : Run Unit := do
  Run.say (OutputTarget.resolveLines request)
  match OutputTarget.resolve settings.output input request with
  | .error _ => pure ()
  | .ok target =>
    match writtenAt? written target.path with
    | some earlier => Run.fail (.write target.path (.alreadyWritten earlier))
    | none => pure ()

/-- The work on one input of a batch. -/
def attempt (settings : Settings) (request : Option OutputRequest) (written : List Written)
    (input : Path) : Run Publication := do
  checkCollision settings input request written
  Publication.run settings input request

/-- Do the work on one input and see what becomes of it. -/
def runOne (settings : Settings) (request : Option OutputRequest) (written : List Written)
    (input : Path) : Run Outcome := fun files =>
  match attempt settings request written input files with
  | ⟨files, log, .ok publication⟩ =>
    ⟨files, log ++ [.info s!"✅ {input.text} -> {publication.output.text}"],
      .ok (.published publication)⟩
  | ⟨files, log, .error error⟩ =>
    ⟨files, log ++ [.error error.message], .ok (.ofError input error)⟩

/-- What was written, after one more outcome. -/
def record (written : List Written) : Outcome → List Written
  | .published publication => ⟨publication.output, publication.input⟩ :: written
  | .failed _ _ _ => written

/-- Do the work on some inputs, one after another. -/
def runAll (settings : Settings) (request : Option OutputRequest) :
    List Written → List Path → Run (List Outcome)
  | _, [] => pure []
  | written, input :: inputs => do
    let outcome ← runOne settings request written input
    let outcomes ← runAll settings request (record written outcome) inputs
    return outcome :: outcomes

/-- What a request asks for if some inputs share it: several cannot share a file name. -/
def sharedRequest (inputs : List Path) (request : Option OutputRequest) : Option OutputRequest :=
  if 1 < inputs.length then request.map OutputRequest.toDirectory else request

/-- What the log says at the end. -/
def endLines (summary : Summary) : List LogLine :=
  let inputs := summary.outcomes.length
  if 1 < inputs then [.info s!"Publicized {inputs - summary.failures} of {inputs} inputs"]
  else []

/-- Work on some inputs, after looking for the modules in directories among them. -/
def run (settings : Settings) (inputs : List Path) (request : Option OutputRequest) :
    Run Summary := do
  Run.say (← Run.look fun files => settings.search.expandLines files inputs)
  let expanded ← Run.look fun files => settings.search.expand files inputs
  let outcomes ← runAll settings (sharedRequest expanded request) [] expanded
  let summary := outcomes.foldl Summary.push {}
  Run.say (endLines summary)
  return summary

end Batch

end PublicAssembly
