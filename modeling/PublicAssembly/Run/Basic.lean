import PublicAssembly.Files.Change
import PublicAssembly.Log.Line
import PublicAssembly.Run.Error

/-!
# Runs

Work that reads and changes files, leaves log lines and may fail. What was done before a failure
stays done. A run is a function of the file tree it finds, so two runs can be compared.
-/

namespace PublicAssembly

/-- What is left of a run. -/
structure Ran (α : Type) where
  /-- The files afterwards. -/
  files : FileTree
  /-- The log lines, in order. -/
  log : List LogLine
  /-- The result. -/
  result : Except Error α

/-- Work that reads and changes files, leaves log lines and may fail. -/
def Run (α : Type) := FileTree → Ran α

namespace Run

variable {α β : Type}

/-- The work that does nothing. -/
def pure (a : α) : Run α :=
  fun files => ⟨files, [], .ok a⟩

/-- Do one thing and then another. -/
def bind (first : Run α) (next : α → Run β) : Run β := fun files =>
  match first files with
  | ⟨files, log, .error error⟩ => ⟨files, log, .error error⟩
  | ⟨files, log, .ok a⟩ =>
    let after := next a files
    ⟨after.files, log ++ after.log, after.result⟩

instance : Monad Run where
  pure := pure
  bind := bind

/-- Look at the files. -/
def look (f : FileTree → α) : Run α :=
  fun files => ⟨files, [], .ok (f files)⟩

/-- Leave some log lines. -/
def say (lines : List LogLine) : Run Unit :=
  fun files => ⟨files, lines, .ok ()⟩

/-- Fail. -/
def fail (error : Error) : Run α :=
  fun files => ⟨files, [], .error error⟩

/-- Go on with a result, or fail. -/
def ofExcept {ε : Type} (cause : ε → Error) : Except ε α → Run α
  | .ok a => pure a
  | .error e => fail (cause e)

/-- Change the files, which may fail. -/
def change (cause : Files.Fault → Error) (f : FileTree → FileTree × Except Files.Fault Unit) :
    Run Unit := fun files =>
  match f files with
  | (files, .ok ()) => ⟨files, [], .ok ()⟩
  | (files, .error fault) => ⟨files, [], .error (cause fault)⟩

/-- Put a new file tree in place of the old one, or fail. -/
def replace (cause : Files.Fault → Error) (f : FileTree → Except Files.Fault FileTree) :
    Run Unit := fun files =>
  match f files with
  | .ok files => ⟨files, [], .ok ()⟩
  | .error fault => ⟨files, [], .error (cause fault)⟩

@[simp]
theorem pure_apply (a : α) (files : FileTree) :
    (Pure.pure a : Run α) files = ⟨files, [], .ok a⟩ := rfl

/-- What follows a success begins with the files that it left. -/
theorem bind_of_ok {first : Run α} {next : α → Run β} {files after : FileTree}
    {log : List LogLine} {a : α} (h : first files = ⟨after, log, .ok a⟩) :
    (first >>= next) files =
      ⟨(next a after).files, log ++ (next a after).log, (next a after).result⟩ := by
  show bind first next files = _
  simp [bind, h]

/-- Looking at the files is followed by what is done with what was seen. -/
@[simp]
theorem look_bind_apply (f : FileTree → α) (next : α → Run β) (files : FileTree) :
    (look f >>= next) files = next (f files) files := by
  rw [bind_of_ok (a := f files) rfl]
  simp

end Run

end PublicAssembly
