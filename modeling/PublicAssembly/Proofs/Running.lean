import PublicAssembly.Proofs.Reading
import PublicAssembly.Run.Basic

/-!
# What a run ends with

Two runs are compared by the files and the result that they end with. What they log is left out, so
the lines of work that only logs disappear (`ends_say_bind`), and what is done one after another is
read off step by step (`ends_bind`).
-/

namespace PublicAssembly.Run

variable {α β ε : Type}

/-- The files and the result that a run ends with. -/
def ends (work : Run α) (files : FileTree) : FileTree × Except Error α :=
  ((work files).files, (work files).result)

@[simp]
theorem ends_fail (error : Error) (files : FileTree) :
    (fail error : Run α).ends files = (files, .error error) := rfl

@[simp]
theorem ends_ofExcept (cause : ε → Error) (read : Except ε α) (files : FileTree) :
    (ofExcept cause read).ends files = (files, read.mapError cause) := by
  cases read <;> rfl

/-- A change ends with the files that it leaves, also where it fails. -/
@[simp]
theorem ends_change (cause : Files.Fault → Error)
    (f : FileTree → FileTree × Except Files.Fault Unit) (files : FileTree) :
    (change cause f).ends files = ((f files).1, (f files).2.mapError cause) := by
  rw [ends, change]
  rcases f files with ⟨left, _ | _⟩ <;> rfl

/-- A new file tree takes the place of the old one, unless there is none. -/
@[simp]
theorem ends_replace (cause : Files.Fault → Error) (f : FileTree → Except Files.Fault FileTree)
    (files : FileTree) :
    (replace cause f).ends files =
      match f files with
      | .ok left => (left, .ok ())
      | .error fault => (files, .error (cause fault)) := by
  rw [ends, replace]
  cases f files <;> rfl

/-- Work is followed by what is done with its result, and a failure by nothing. -/
theorem ends_bind (first : Run α) (next : α → Run β) (files : FileTree) :
    (first >>= next).ends files =
      match first.ends files with
      | (left, .ok a) => (next a).ends left
      | (left, .error error) => (left, .error error) := by
  show ends (bind first next) files = _
  rw [ends, ends, bind]
  rcases first files with ⟨left, log, _ | _⟩ <;> rfl

/-- Work that begins with a result or a failure goes on with the result, or fails. -/
theorem ends_ofExcept_bind (cause : ε → Error) (read : Except ε α) (next : α → Run β)
    (files : FileTree) :
    (ofExcept cause read >>= next).ends files =
      match read.mapError cause with
      | .ok a => (next a).ends files
      | .error error => (files, .error error) := by
  rw [ends_bind, ends_ofExcept]
  cases read <;> rfl

@[simp]
theorem ends_look_bind (f : FileTree → α) (next : α → Run β) (files : FileTree) :
    (look f >>= next).ends files = (next (f files)).ends files := ends_bind _ _ _

/-- What is logged first makes no difference. -/
@[simp]
theorem ends_say_bind (lines : List LogLine) (next : Unit → Run β) (files : FileTree) :
    (say lines >>= next).ends files = (next ()).ends files := ends_bind _ _ _

end PublicAssembly.Run
