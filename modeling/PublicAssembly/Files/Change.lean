import PublicAssembly.Files.Tree

/-!
# Changes of file trees

Writing files, making directories, and what a run has changed: everything that is new or different
afterwards. Nothing is ever removed.

Writing sets one place and leaves all others as they are (`get?_set_self`, `get?_set_of_ne`).
-/

namespace PublicAssembly.FileTree

open Files (Fault)
open Text (segments)

/-! ### Places -/

/-- The entries with another entry at a place. -/
def putEntry (place : Location) (entry : FileEntry) :
    List (Location × FileEntry) → List (Location × FileEntry)
  | [] => [(place, entry)]
  | (here, found) :: rest =>
    if here = place then (place, entry) :: rest else (here, found) :: putEntry place entry rest

/-- Put something at a place. -/
def set (tree : FileTree) (place : Location) (entry : FileEntry) : FileTree :=
  { tree with entries := putEntry place entry tree.entries }

theorem lookup_putEntry_self (place : Location) (entry : FileEntry)
    (entries : List (Location × FileEntry)) :
    (putEntry place entry entries).lookup place = some entry := by
  induction entries with
  | nil => simp [putEntry]
  | cons e rest ih =>
    obtain ⟨here, found⟩ := e
    rw [putEntry]
    split
    · simp
    · next h =>
      have : (place == here) = false := beq_eq_false_iff_ne.2 (Ne.symm h)
      simp [List.lookup_cons, this, ih]

theorem lookup_putEntry_of_ne {place other : Location} (h : other ≠ place) (entry : FileEntry)
    (entries : List (Location × FileEntry)) :
    (putEntry place entry entries).lookup other = entries.lookup other := by
  have differ : (other == place) = false := beq_eq_false_iff_ne.2 h
  induction entries with
  | nil => simp [putEntry, List.lookup_cons, differ]
  | cons e rest ih =>
    obtain ⟨here, found⟩ := e
    rw [putEntry]
    split
    · next hp => simp [List.lookup_cons, hp, differ]
    · simp only [List.lookup_cons, ih]

/-- What was put at a place is there. -/
theorem get?_set_self {place : Location} (h : place ≠ []) (tree : FileTree) (entry : FileEntry) :
    (tree.set place entry).get? place = some entry := by
  simp [get?, set, h, lookup_putEntry_self]

/-- What is at other places stays. -/
theorem get?_set_of_ne {place other : Location} (h : other ≠ place) (tree : FileTree)
    (entry : FileEntry) : (tree.set place entry).get? other = tree.get? other := by
  simp [get?, set, lookup_putEntry_of_ne h]

/-! ### Files -/

/-- Write a file, in place of the one that is there. -/
def write (tree : FileTree) (path : Path) (content : Bytes) : Except Fault FileTree := do
  let place ← tree.locate path
  match tree.get? place with
  | some .directory => throw .isDirectory
  | _ => return tree.set place (.file content)

/-- Write a file of text. -/
def writeText (tree : FileTree) (path : Path) (text : String) : Except Fault FileTree :=
  tree.write path text.toUTF8.data

/-! ### Directories -/

/-- Make a directory in one that is there. Slashes at the end of the path do not count. -/
def makeDirectory (tree : FileTree) (path : Path) : Except Fault FileTree := do
  let pieces := (segments '/' path.chars).reverse.dropWhile List.isEmpty
  let place ← tree.locatePieces path pieces.reverse
  match tree.get? place with
  | some _ => throw .alreadyExists
  | none => return tree.set place .directory

/-- Make the first of some directories, after those behind it in the list if they are needed. What
was made before a fault stays. -/
def makeDirectories (tree : FileTree) : List Path → FileTree × Except Fault Unit
  | [] => (tree, .error .noPlace)
  | path :: above =>
    if path.isEmpty then (tree, .ok ())
    else
      match tree.makeDirectory path with
      | .ok made => (made, .ok ())
      -- only if there is no place for it are the directories above it made
      | .error .notFound =>
        match tree.makeDirectories above with
        | (tree, .error fault) => (tree, .error fault)
        | (tree, .ok ()) =>
          match tree.makeDirectory path with
          | .ok made => (made, .ok ())
          | .error fault => (tree, if tree.hasDirectory path then .ok () else .error fault)
      | .error fault => (tree, if tree.hasDirectory path then .ok () else .error fault)

/-- Make a directory and those above it that are missing. -/
def makeDirectoryPath (tree : FileTree) (path : Path) : FileTree × Except Fault Unit :=
  tree.makeDirectories path.ancestors

/-! ### What has changed -/

/-- What is new or different in the second of two file trees. -/
def changes (before after : FileTree) : List (Location × FileEntry) :=
  after.entries.filter fun (place, entry) => before.get? place != some entry

end PublicAssembly.FileTree
