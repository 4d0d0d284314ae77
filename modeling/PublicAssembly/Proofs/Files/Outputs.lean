import PublicAssembly.Proofs.Files.Directories

/-!
# Files in one directory

Files that are written into one directory under different names do not disturb each other: where a
file goes, and whether it can be written, does not depend on the others.

## Main definitions

* `Path.PlainName`: a name that is one component of a path;
* `FileTree.Opens`: a path leads to a directory;
* `FileTree.putFiles`: a tree with some more files in a directory.

## Main statements

* `locate_join`: where a name in a directory leads does not depend on what else is there;
* `write_join`: what it takes to write a file into a directory;
* `Opens.putFiles`: more files in a directory leave it where it is.
-/

namespace PublicAssembly

open Files (Fault)
open Reading
open Text (segments)

namespace Path

variable {directory : Path} {name : String}

/-- The name is one component of a path. -/
structure PlainName (name : String) : Prop where
  /-- It does not separate names. -/
  no_separator : '/' ∉ name.toList
  /-- It stands for itself. -/
  ofSegment?_eq : Component.ofSegment? name.toList = some (.name name)

/-- A plain name does not begin at the root. -/
theorem isAbsolute_of_plainName (hname : PlainName name) : (mk name).isAbsolute = false := by
  have hseparator := hname.no_separator
  rw [isAbsolute, chars, beq_eq_false_iff_ne]
  intro hhead
  exact hseparator (List.mem_of_mem_head? (by rw [hhead]; rfl))

/-- A name in the working directory is a path of its own. -/
theorem join_of_isEmpty (hempty : directory.isEmpty = true) (name : String) :
    directory.join ⟨name⟩ = ⟨name⟩ := by
  simp [join, hempty]

/-- A name in another directory stands behind a slash, which may be that at the end of the
directory. -/
theorem chars_join (hname : PlainName name) (hempty : directory.isEmpty = false) :
    ∃ front, (directory.join ⟨name⟩).chars = front ++ '/' :: name.toList ∧
      (directory.chars = front ∨ directory.chars = front ++ ['/']) := by
  simp only [join, isAbsolute_of_plainName hname, hempty, Bool.or_self, Bool.false_eq_true, if_false]
  by_cases hslash : directory.chars.getLast? = some '/'
  · obtain ⟨front, hfront⟩ := List.getLast?_eq_some_iff.1 hslash
    refine ⟨front, ?_, .inr hfront⟩
    rw [if_pos hslash, chars_ofChars, hfront, List.append_assoc]
    rfl
  · refine ⟨directory.chars, ?_, .inl rfl⟩
    rw [if_neg hslash, chars_ofChars]
    rfl

end Path

namespace FileTree

variable {tree : FileTree} {directory : Path} {place : Location} {name : String}

/-- The path leads to a directory at the place; a path without text leads to the working
directory. -/
def Opens (tree : FileTree) (directory : Path) (place : Location) : Prop :=
  (if directory.isEmpty then .ok tree.workingDirectory else tree.locate directory) = Except.ok place ∧
    tree.get? place = some .directory

/-- The place of a file of the given path whose name stands in the directory at a place. -/
def placeIn (path : Path) (place : Location) (name : String) : Except Fault Location :=
  if '\x00' ∈ path.chars then .error .nulCharacter
  else if path.isEmpty then .error .notFound
  else if pathBound ≤ path.text.utf8ByteSize then .error .nameTooLong
  else nextPlace place name.toList

/-- The place of a file is that of its name in the directory. -/
theorem eq_of_placeIn (hname : Path.PlainName name) {path : Path} {found : Location}
    (h : placeIn path place name = .ok found) : found = place ++ [name] := by
  simp only [placeIn, nextPlace, hname.ofSegment?_eq, ite_error_eq_ok_iff, Except.ok.injEq] at h
  exact h.2.2.2.2.symm

/-- Where a name in a directory leads does not depend on what else is in the tree. -/
theorem locate_join (h : tree.Opens directory place) (hname : Path.PlainName name) :
    tree.locate (directory.join ⟨name⟩) = placeIn (directory.join ⟨name⟩) place name := by
  suffices hfollow : tree.follow (tree.startOf (directory.join ⟨name⟩))
      (segments '/' (directory.join ⟨name⟩).chars) = nextPlace place name.toList by
    rw [locate, locatePieces, placeIn, ← hfollow]
    rfl
  obtain ⟨hplace, hdirectory⟩ := h
  have hsegment := Text.segments_of_not_mem hname.no_separator
  -- in the working directory the name stands alone, and elsewhere behind the way to the directory
  by_cases hempty : directory.isEmpty = true
  · rw [if_pos hempty, Except.ok.injEq] at hplace
    rw [Path.join_of_isEmpty hempty, startOf, Path.isAbsolute_of_plainName hname,
      if_neg (by decide), hplace]
    exact (congrArg (tree.follow place) hsegment).trans (follow_singleton hdirectory _)
  · rw [if_neg hempty] at hplace
    rw [Bool.not_eq_true] at hempty
    obtain ⟨-, hlead⟩ := locate_eq_ok_iff.1 hplace
    obtain ⟨front, hjoin, hchars⟩ := Path.chars_join hname hempty
    rcases hchars with hchars | hchars
    · rw [hchars] at hlead
      rw [startOf_eq_of_chars_eq (hjoin.trans (by rw [hchars])) hempty, hjoin,
        Text.segments_append_cons, hsegment, follow_append, hlead, ok_bind,
        follow_singleton hdirectory]
    · -- the last piece of the directory is empty, and the name takes its place
      have hstart : tree.startOf (directory.join ⟨name⟩) = tree.startOf directory := by
        have hmore : (directory.join ⟨name⟩).chars = directory.chars ++ name.toList := by
          rw [hjoin, hchars, List.append_assoc]
          rfl
        exact startOf_eq_of_chars_eq hmore hempty
      rw [hchars, Text.segments_append_cons] at hlead
      obtain ⟨between, hbetween, hblank⟩ := (follow_append_eq_ok_iff _ _).1 hlead
      obtain rfl := eq_of_follow_blank (by simp [segments]) hblank
      rw [hstart, hjoin, Text.segments_append_cons, hsegment, follow_append, hbetween, ok_bind,
        follow_singleton hdirectory]

/-- A directory that a path leads to need not be made. -/
theorem Opens.makeDirectoryPath (h : tree.Opens directory place) :
    tree.makeDirectoryPath directory = (tree, .ok ()) := by
  refine makeDirectoryPath_of_hasDirectory ?_
  by_cases hempty : directory.isEmpty = true
  · exact .inl hempty
  · obtain ⟨hplace, hdirectory⟩ := h
    rw [if_neg hempty] at hplace
    exact .inr (hasDirectory_iff.2 ⟨place, hplace, hdirectory⟩)

/-- After a directory was made, its path leads to it, unless the path has no text and there is no
working directory. -/
theorem opens_of_makeDirectoryPath {made : FileTree}
    (h : tree.makeDirectoryPath directory = (made, .ok ())) :
    (∃ place, made.Opens directory place) ∨
      made = tree ∧ directory.isEmpty = true ∧
        tree.get? tree.workingDirectory ≠ some .directory := by
  by_cases hempty : directory.isEmpty = true
  · rw [makeDirectoryPath_of_hasDirectory (.inl hempty)] at h
    cases h
    by_cases hthere : tree.get? tree.workingDirectory = some .directory
    · exact .inl ⟨tree.workingDirectory, by rw [if_pos hempty], hthere⟩
    · exact .inr ⟨rfl, hempty, hthere⟩
  · rw [Bool.not_eq_true] at hempty
    obtain ⟨place, hplace, hdirectory⟩ :=
      hasDirectory_iff.1 (hasDirectory_of_makeDirectoryPath hempty h)
    exact .inl ⟨place, by rwa [if_neg (by simp [hempty])], hdirectory⟩

/-! ### Writing and reading -/

/-- Without a working directory a name alone leads nowhere. -/
theorem locate_of_no_workingDirectory (hempty : directory.isEmpty = true)
    (hnone : tree.get? tree.workingDirectory ≠ some .directory) (hname : Path.PlainName name)
    (place : Location) : tree.locate (directory.join ⟨name⟩) ≠ .ok place := by
  intro hplace
  obtain ⟨-, hfollow⟩ := locate_eq_ok_iff.1 hplace
  rw [Path.join_of_isEmpty hempty, startOf, Path.isAbsolute_of_plainName hname,
    if_neg (by decide)] at hfollow
  exact hnone (directory_of_follow (Text.segments_ne_nil _ _) hfollow)

/-- Without a working directory nothing is written under a name alone. -/
theorem write_of_no_workingDirectory (hempty : directory.isEmpty = true)
    (hnone : tree.get? tree.workingDirectory ≠ some .directory) (hname : Path.PlainName name)
    (content left) : tree.write (directory.join ⟨name⟩) content ≠ .ok left := by
  intro h
  rw [write, bind_eq_ok_iff] at h
  obtain ⟨place, hplace, -⟩ := h
  exact locate_of_no_workingDirectory hempty hnone hname place hplace

/-- When the directory of a name has been made, the name leads to a place in it, if anywhere. -/
theorem locate_join_of_makeDirectoryPath {made : FileTree}
    (h : tree.makeDirectoryPath directory = (made, .ok ())) (hname : Path.PlainName name)
    {found : Location} (hfound : made.locate (directory.join ⟨name⟩) = .ok found) :
    ∃ place, made.Opens directory place ∧ found = place ++ [name] := by
  rcases opens_of_makeDirectoryPath h with ⟨place, hopens⟩ | ⟨rfl, hempty, hnone⟩
  · rw [locate_join hopens hname] at hfound
    exact ⟨place, hopens, eq_of_placeIn hname hfound⟩
  · exact absurd hfound (locate_of_no_workingDirectory hempty hnone hname found)

/-- What a file may be written over: nothing, or another file. -/
def admits (tree : FileTree) (path : Path) (place : Location) (name : String) :
    Except Fault Unit := do
  let found ← placeIn path place name
  if tree.get? found = some .directory then
    throw .isDirectory

/-- What it takes for a file to be written into a directory. -/
theorem admits_eq_ok_iff (hname : Path.PlainName name) {path : Path} :
    tree.admits path place name = .ok () ↔
      placeIn path place name = .ok (place ++ [name]) ∧
        tree.get? (place ++ [name]) ≠ some .directory := by
  simp only [admits, bind_eq_ok_iff]
  constructor
  · rintro ⟨found, hfound, hadmits⟩
    obtain rfl := eq_of_placeIn hname hfound
    refine ⟨hfound, fun hdirectory => ?_⟩
    rw [if_pos hdirectory] at hadmits
    cases hadmits
  · rintro ⟨hfound, hdirectory⟩
    exact ⟨_, hfound, by rw [if_neg hdirectory]; rfl⟩

/-- Writing a file into a directory puts it there under its name, if it is admitted. -/
theorem write_join (h : tree.Opens directory place) (hname : Path.PlainName name)
    (content : Bytes) :
    tree.write (directory.join ⟨name⟩) content =
      (tree.admits (directory.join ⟨name⟩) place name).map fun _ =>
        tree.set (place ++ [name]) (.file content) := by
  rw [write, locate_join h hname, admits]
  cases hfound : placeIn (directory.join ⟨name⟩) place name with
  | error fault => rfl
  | ok found =>
    obtain rfl := eq_of_placeIn hname hfound
    rw [ok_bind, ok_bind]
    cases htree : tree.get? (place ++ [name]) with
    | none => rfl
    | some entry => cases entry <;> rfl

/-- A file in a directory is read as what it holds. -/
theorem read_join (h : tree.Opens directory place) (hname : Path.PlainName name)
    (hplace : placeIn (directory.join ⟨name⟩) place name = .ok (place ++ [name])) {content : Bytes}
    (hcontent : tree.get? (place ++ [name]) = some (.file content)) :
    tree.read (directory.join ⟨name⟩) = .ok content := by
  rw [read, find, locate_join h hname, hplace]
  simp only [ok_bind, hcontent]
  rfl

/-! ### More files in a directory -/

/-- The tree with some more files in the directory at a place, the first put there last. -/
def putFiles (tree : FileTree) (place : Location) (files : List (String × Bytes)) : FileTree :=
  files.foldr (fun file tree => tree.set (place ++ [file.1]) (.file file.2)) tree

variable {files : List (String × Bytes)}

@[simp]
theorem putFiles_nil (tree : FileTree) (place : Location) : tree.putFiles place [] = tree := rfl

theorem putFiles_cons (tree : FileTree) (place : Location) (file : String × Bytes) :
    tree.putFiles place (file :: files) =
      (tree.putFiles place files).set (place ++ [file.1]) (.file file.2) := rfl

/-- More files are put over the others. -/
theorem putFiles_putFiles (tree : FileTree) (place : Location) (files more : List (String × Bytes)) :
    (tree.putFiles place files).putFiles place more = tree.putFiles place (more ++ files) :=
  List.foldr_append.symm

@[simp]
theorem workingDirectory_putFiles (tree : FileTree) (place : Location)
    (files : List (String × Bytes)) :
    (tree.putFiles place files).workingDirectory = tree.workingDirectory := by
  induction files with
  | nil => rfl
  | cons file files ih => exact ih

/-- What is elsewhere stays. -/
theorem get?_putFiles_of_ne {other : Location} (h : ∀ file ∈ files, other ≠ place ++ [file.1]) :
    (tree.putFiles place files).get? other = tree.get? other := by
  induction files with
  | nil => rfl
  | cons file files ih =>
    rw [List.forall_mem_cons] at h
    rw [putFiles_cons, get?_set_of_ne h.1, ih h.2]

/-- The files are there, if no two have the same name. -/
theorem get?_putFiles (hdistinct : (files.map Prod.fst).Nodup) {file : String × Bytes}
    (h : file ∈ files) :
    (tree.putFiles place files).get? (place ++ [file.1]) = some (.file file.2) := by
  induction files with
  | nil => cases h
  | cons first files ih =>
    rw [List.map_cons, List.nodup_cons] at hdistinct
    rw [putFiles_cons]
    rcases List.mem_cons.1 h with rfl | h
    · exact get?_set_self (by simp) _ _
    · -- the file that is put in first has another name, and so it covers none of the others
      have hne : place ++ [file.1] ≠ place ++ [first.1] := by
        intro heq
        simp only [List.append_cancel_left_eq, List.cons.injEq, and_true] at heq
        exact hdistinct.1 (heq ▸ List.mem_map_of_mem h)
      rw [get?_set_of_ne hne, ih hdistinct.2 h]

/-- Files that are put over no directory leave all directories. -/
theorem directory_putFiles (h : ∀ file ∈ files, tree.get? (place ++ [file.1]) ≠ some .directory)
    {other : Location} (hother : tree.get? other = some .directory) :
    (tree.putFiles place files).get? other = some .directory := by
  rw [get?_putFiles_of_ne fun file hfile heq => h file hfile (heq ▸ hother), hother]

/-- A file that is found is found with more files in a directory, unless one of them is put over
it. -/
theorem find_putFiles {path : Path} {content : Bytes}
    (h : ∀ file ∈ files, tree.get? (place ++ [file.1]) ≠ some .directory)
    (hother : ∀ file ∈ files, tree.locate path ≠ .ok (place ++ [file.1]))
    (hfind : tree.find path = .ok (.file content)) :
    (tree.putFiles place files).find path = .ok (.file content) := by
  obtain ⟨found, hlocate, hentry⟩ := find_eq_ok_iff.1 hfind
  have hne : ∀ file ∈ files, found ≠ place ++ [file.1] := fun file hfile heq =>
    hother file hfile (heq ▸ hlocate)
  refine find_eq_ok_iff.2 ⟨found, ?_, by rw [get?_putFiles_of_ne hne, hentry]⟩
  exact locate_mono (workingDirectory_putFiles tree place files) (fun _ => directory_putFiles h)
    hlocate

/-- More files in a directory leave it where it is. -/
theorem Opens.putFiles (hopens : tree.Opens directory place)
    (h : ∀ file ∈ files, tree.get? (place ++ [file.1]) ≠ some .directory) :
    (tree.putFiles place files).Opens directory place := by
  obtain ⟨hplace, hdirectory⟩ := hopens
  refine ⟨?_, directory_putFiles h hdirectory⟩
  by_cases hempty : directory.isEmpty = true
  · rw [if_pos hempty] at hplace ⊢
    rwa [workingDirectory_putFiles]
  · rw [if_neg hempty] at hplace ⊢
    exact locate_mono (workingDirectory_putFiles tree place files) (fun _ => directory_putFiles h)
      hplace

/-- Whether a file is admitted does not depend on files of other names. -/
theorem admits_putFiles (h : ∀ file ∈ files, file.1 ≠ name) (hname : Path.PlainName name)
    (path : Path) : (tree.putFiles place files).admits path place name =
      tree.admits path place name := by
  rw [admits, admits]
  cases hfound : placeIn path place name with
  | error fault => rfl
  | ok found =>
    obtain rfl := eq_of_placeIn hname hfound
    have hsame : (tree.putFiles place files).get? (place ++ [name]) =
        tree.get? (place ++ [name]) := by
      refine get?_putFiles_of_ne fun file hfile heq => h file hfile ?_
      simpa using heq.symm
    rw [ok_bind, ok_bind, hsame]

end FileTree

end PublicAssembly
