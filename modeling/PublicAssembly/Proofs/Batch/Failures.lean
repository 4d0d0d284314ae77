import PublicAssembly.Batch.Basic
import PublicAssembly.Proofs.Batch.Publication

/-!
# How the work on an input fails

The work on an input fails in one of a few ways, and its error names the input or its target. None
of these errors reads like that of a copy which is in the way, so a batch whose outcomes hold the
words of an error and not the error itself still tells the two apart.

## Main definitions

* `Publication.Fails`: the ways in which the work on an input fails.

## Main statements

* `Publication.fails_of_ends_run`: the work on an input fails in one of these ways;
* `Publication.Fails.ofError_ne`: its outcome is not that of a copy being in the way.
-/

namespace PublicAssembly

open Files (Fault)
open Reading

/-! ### Faults of files -/

namespace FileTree

variable {tree : FileTree} {path : Path} {text : String}

/-- A path that cannot be followed is refused for a known reason. -/
theorem follow_ne_other (pieces : List (List Char)) (place : Location) :
    tree.follow place pieces ≠ .error (.other text) := by
  induction pieces generalizing place with
  | nil => simp [follow]
  | cons piece pieces ih =>
    rw [follow]
    split
    · simp
    · simp
    · split
      · exact ih _
      · split
        · simp
        · exact ih _
      · exact ih _

/-- A path that leads nowhere is refused for a known reason. -/
theorem locate_ne_other : tree.locate path ≠ .error (.other text) := by
  rw [locate, locatePieces]
  split
  · simp
  · split
    · simp
    · split
      · simp
      · exact follow_ne_other _ _

/-- A path where there is nothing is refused for a known reason. -/
theorem find_ne_other : tree.find path ≠ .error (.other text) := by
  rw [find, ne_eq, bind_eq_error_iff]
  rintro (hlocate | ⟨place, -, hentry⟩)
  · exact locate_ne_other hlocate
  · cases hget : tree.get? place <;> simp [hget, pure, Except.pure] at hentry

/-- A file that cannot be read is refused for a known reason. -/
theorem read_ne_other : tree.read path ≠ .error (.other text) := by
  rw [read, ne_eq, bind_eq_error_iff]
  rintro (hfind | ⟨entry, -, hcontent⟩)
  · exact find_ne_other hfind
  · cases entry <;> simp [pure, Except.pure] at hcontent

/-- A file that cannot be written is refused for a known reason. -/
theorem write_ne_other (content : Bytes) : tree.write path content ≠ .error (.other text) := by
  rw [write, ne_eq, bind_eq_error_iff]
  rintro (hlocate | ⟨place, -, hplace⟩)
  · exact locate_ne_other hlocate
  · split at hplace <;> simp [pure, Except.pure] at hplace

end FileTree

/-! ### The ways to fail -/

/-- The module cannot be written for a reason of its own, and not because of another input. -/
def WriteFault.IsOwn (fault : WriteFault) : Prop :=
  match fault with
  | files fault => ∀ text, fault ≠ .other text
  | image _ => True
  | noImage => True
  | alreadyWritten _ => False

/-- A module of a file is read, or refused as one that cannot be read. -/
theorem Format.exists_of_decode_eq_error {format : Format} {path : Path} {content : Bytes}
    {error : Error} (h : format.decode path content = .error error) :
    ∃ fault, error = .read path fault := by
  cases format with
  | json =>
    rw [decode] at h
    split at h
    · cases h
      exact ⟨_, rfl⟩
    · rw [bind_eq_error_iff] at h
      rcases h with hread | ⟨document, -, hmodule⟩
      · obtain ⟨fault, -, rfl⟩ := mapError_eq_error_iff.1 hread
        exact ⟨_, rfl⟩
      · obtain ⟨unknown, -, rfl⟩ := mapError_eq_error_iff.1 hmodule
        exact ⟨_, rfl⟩
  | image =>
    obtain ⟨fault, -, rfl⟩ := mapError_eq_error_iff.1 h
    exact ⟨_, rfl⟩

/-- A module is encoded, or refused as one that cannot be written. -/
theorem Format.exists_of_encode_eq_error {format : Format} {m : Module} {path : Path}
    {error : Error} (h : format.encode m path = .error error) :
    ∃ fault : WriteFault, error = .write path fault ∧ fault.IsOwn := by
  cases format with
  | json => cases h
  | image =>
    rw [encode] at h
    split at h
    · cases h
      exact ⟨_, rfl, trivial⟩
    · obtain ⟨fault, -, rfl⟩ := mapError_eq_error_iff.1 h
      exact ⟨_, rfl, trivial⟩

namespace Publication

variable {settings : Settings} {input : Path} {request : Option OutputRequest}
  {files left : FileTree} {error : Error}

/-- The ways in which the work on an input fails. -/
inductive Fails (settings : OutputSettings) (input : Path) (request : Option OutputRequest) :
    Error → Prop where
  /-- The input is no file. -/
  | notFound : Fails settings input request (.notFound input)
  /-- The file holds no module. -/
  | read (fault : ReadFault) : Fails settings input request (.read input fault)
  /-- The input has no target. -/
  | argument (fault : ArgumentFault) : Fails settings input request (.argument fault)
  /-- The directory of the target cannot be made. -/
  | createDirectory {target : OutputTarget} (fault : Fault)
    (htarget : OutputTarget.resolve settings input request = .ok target) :
    Fails settings input request (.createDirectory target.directory fault)
  /-- The copy cannot be written at the target. -/
  | write {target : OutputTarget} {fault : WriteFault} (hfault : fault.IsOwn)
    (htarget : OutputTarget.resolve settings input request = .ok target) :
    Fails settings input request (.write target.path fault)

/-- A module that is not saved has no directory to be in, or cannot be written. -/
theorem fails_of_ends_save {format : Format} {m : Module} {target : OutputTarget}
    (htarget : OutputTarget.resolve settings.output input request = .ok target)
    (h : (save format m target).ends files = (left, .error error)) :
    Fails settings.output input request error := by
  -- the steps one after another: the directory, the encoding, the file, and reading it back
  rw [ends_save] at h
  split at h
  · cases h
    exact .createDirectory _ htarget
  · split at h
    · next hencode =>
      cases h
      obtain ⟨fault, rfl, hfault⟩ := Format.exists_of_encode_eq_error hencode
      exact .write hfault htarget
    · split at h
      · next hwrite =>
        cases h
        exact .write (fun text hother => FileTree.write_ne_other _ (hother ▸ hwrite)) htarget
      · next saved hwrite =>
        cases hread : saved.read target.path with
        | ok content =>
          rw [hread] at h
          cases h
        | error fault =>
          rw [hread] at h
          cases h
          exact .write (fun text hother => FileTree.read_ne_other (hother ▸ hread)) htarget

/-- Without a draft, the input is no file, it holds no module, or it has no target. -/
theorem draft_eq_error {found : Except Fault FileEntry}
    (h : draft settings input request found = .error error) :
    error = .notFound input ∨ (∃ fault, error = .read input fault) ∨
      ∃ fault, error = .argument fault := by
  unfold draft at h
  split at h
  · rw [bind_eq_error_iff] at h
    rcases h with hdecode | ⟨m, -, h⟩
    · exact .inr (.inl (Format.exists_of_decode_eq_error hdecode))
    · rw [bind_eq_error_iff] at h
      rcases h with hresolve | ⟨target, -, hdone⟩
      · obtain ⟨fault, -, rfl⟩ := mapError_eq_error_iff.1 hresolve
        exact .inr (.inr ⟨fault, rfl⟩)
      · cases hdone
  · cases h
    exact .inl rfl

/-- The work on an input fails in one of the known ways. -/
theorem fails_of_ends_run (h : (run settings input request).ends files = (left, .error error)) :
    Fails settings.output input request error := by
  rw [ends_run] at h
  cases hdraft : draft settings input request (files.find input) with
  | error fault =>
    rw [hdraft] at h
    cases h
    -- before anything is written
    obtain rfl | ⟨fault, rfl⟩ | ⟨fault, rfl⟩ := draft_eq_error hdraft
    · exact .notFound
    · exact .read fault
    · exact .argument fault
  | ok drafted =>
    obtain ⟨prepared, target⟩ := drafted
    obtain ⟨-, -, -, -, htarget, -⟩ := draft_eq_ok_iff.1 hdraft
    rw [hdraft] at h
    rcases hsave : (save (Format.ofPath input) prepared.module target).ends files with
      ⟨saved, fault | digest⟩
    · simp only [hsave] at h
      cases h
      exact fails_of_ends_save htarget hsave
    · simp only [hsave] at h
      cases h

end Publication

/-! ### The words of a failure -/

/-- The characters of a text are those of a longer one. -/
theorem getElem?_toList_append {front : String} {i : Nat} {c : Char}
    (h : front.toList[i]? = some c) (behind : String) : (front ++ behind).toList[i]? = some c := by
  obtain ⟨hi, -⟩ := List.getElem?_eq_some_iff.1 h
  rw [String.toList_append, List.getElem?_append_left hi, h]

/-- The words of an image fault begin with one of three letters. -/
theorem Image.Fault.getElem?_message (fault : Image.Fault) :
    ∃ c ∈ ['m', 'n', 'u'], fault.message.toList[0]? = some c := by
  cases fault with
  | truncated offset wanted =>
    exact ⟨'u', by decide, getElem?_toList_append (getElem?_toList_append rfl _) _⟩
  | notPe fault => exact ⟨'n', by decide, getElem?_toList_append rfl _⟩
  | notManaged fault => exact ⟨'n', by decide, getElem?_toList_append rfl _⟩
  | malformed fault => exact ⟨'m', by decide, getElem?_toList_append rfl _⟩
  | unsupported part => exact ⟨'u', by decide, getElem?_toList_append rfl _⟩

/-- A module that cannot be written for a reason of its own is not reported like a copy that is in
the way. -/
theorem WriteFault.message_ne {fault : WriteFault} (h : fault.IsOwn) (earlier : Path) :
    fault.message ≠ (alreadyWritten earlier).message := by
  have halready : (alreadyWritten earlier).message.toList[0]? = some 'a' :=
    getElem?_toList_append (getElem?_toList_append rfl _) _
  intro hsame
  rw [← hsame] at halready
  -- the first letter settles it, but for the words of a fault that the system makes up
  cases fault with
  | files fault =>
    cases fault with
    | other text => exact h text rfl
    | _ => exact absurd halready (by decide)
  | image fault =>
    obtain ⟨c, hc, hfirst⟩ := fault.getElem?_message
    cases halready.symm.trans hfirst
    exact absurd hc (by decide)
  | noImage => exact absurd halready (by decide)
  | alreadyWritten earlier => exact h

/-- The outcome of an input on which the work failed is not that of a copy being in the way of its
own. -/
theorem Publication.Fails.ofError_ne {settings : OutputSettings} {input : Path}
    {request : Option OutputRequest} {error : Error} (h : Fails settings input request error)
    {target : OutputTarget} (htarget : OutputTarget.resolve settings input request = .ok target)
    (earlier : Path) :
    Outcome.ofError input error ≠
      .ofError input (.write target.path (.alreadyWritten earlier)) := by
  rw [Outcome.ofError, Outcome.ofError, ne_eq, Outcome.failed.injEq]
  rintro ⟨-, hmessage, hcode⟩
  cases h with
  | notFound => simp [Error.exitCode] at hcode
  | read fault => simp [Error.exitCode] at hcode
  | argument fault => simp [Error.exitCode] at hcode
  | @createDirectory other fault _ =>
    -- the words part where one names a directory and the other a file
    have hdirectory : (Error.createDirectory other.directory fault).message.toList[13]? =
        some ' ' :=
      getElem?_toList_append (getElem?_toList_append (getElem?_toList_append rfl _) _) _
    have hfile : (Error.write target.path (.alreadyWritten earlier)).message.toList[13]? =
        some '/' :=
      getElem?_toList_append (getElem?_toList_append (getElem?_toList_append rfl _) _) _
    rw [hmessage] at hdirectory
    exact absurd (hfile.symm.trans hdirectory) (by decide)
  | @write other fault hfault hother =>
    -- both name the target, so only the words of the fault are left to tell them apart
    obtain rfl : target = other := Except.ok.inj (htarget.symm.trans hother)
    exact WriteFault.message_ne hfault earlier ((String.append_right_inj _).1 hmessage)

end PublicAssembly
