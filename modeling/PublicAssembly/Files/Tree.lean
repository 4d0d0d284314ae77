import PublicAssembly.Bytes.Basic
import PublicAssembly.Files.Path

/-!
# File trees

The files and directories that a run sees. A path is followed name by name from the root or from
the working directory; everything before the last name must be a directory. An operation that fails
does so for a reason that is told in the words of the operating system.

A tree holds regular files and directories under names that are text, and nothing else. Links, special
files, names that are not UTF-8, permissions, and writing that fails because of the device are left out:
what is read is what was written last, and what can be found can be read.

`filesIn` walks a directory in the order of the entries. What is said about the inputs of a run holds
for every order in which a walk may give them (`IsWalk`).
-/

namespace PublicAssembly

namespace Files

/-- Why an operation on files fails. -/
inductive Fault where
  /-- There is nothing of this name. -/
  | notFound
  /-- A file stands where a directory is needed. -/
  | notDirectory
  /-- A directory stands where a file is needed. -/
  | isDirectory
  /-- There is something of this name already. -/
  | alreadyExists
  /-- A name or a path is too long. -/
  | nameTooLong
  /-- A path holds a character that ends a name. -/
  | nulCharacter
  /-- A file that must hold text is not UTF-8. -/
  | notUtf8
  /-- A new directory has no place to be in. -/
  | noPlace
  /-- Any other fault, in words. -/
  | other (text : String)
  deriving DecidableEq, Repr

/-- The wording of a fault. -/
def Fault.message : Fault → String
  | notFound => "No such file or directory (os error 2)"
  | notDirectory => "Not a directory (os error 20)"
  | isDirectory => "Is a directory (os error 21)"
  | alreadyExists => "File exists (os error 17)"
  | nameTooLong => "File name too long (os error 36)"
  | nulCharacter => "file name contained an unexpected NUL byte"
  | notUtf8 => "stream did not contain valid UTF-8"
  | noPlace => "failed to create whole tree"
  | other text => text

end Files

open Files (Fault)
open Text (segments)

/-- A place in a file tree: the names from the root on. -/
abbrev Location := List String

/-- What is at a place. -/
inductive FileEntry where
  /-- A file with its content. -/
  | file (content : Bytes)
  /-- A directory. -/
  | directory
  deriving DecidableEq, Repr

/-- The files and directories that a run sees. -/
structure FileTree where
  /-- The directory that relative paths start from. -/
  workingDirectory : Location := []
  /-- What is where. The root is always there. -/
  entries : List (Location × FileEntry) := []
  deriving DecidableEq, Repr

namespace FileTree

/-! ### Places -/

/-- What is at a place, if there is anything. -/
def get? (tree : FileTree) (place : Location) : Option FileEntry :=
  if place = [] then some .directory else tree.entries.lookup place

/-! ### Following paths -/

/-- The number of bytes that a name may have. -/
def maxName : Nat :=
  255

/-- The number of bytes that a path must stay below. -/
def pathBound : Nat :=
  4096

/-- The place that the pieces of a path lead to. The last name need not be there. -/
def follow (tree : FileTree) : Location → List (List Char) → Except Fault Location
  | place, [] => .ok place
  | place, piece :: pieces =>
    match tree.get? place with
    | none => .error .notFound
    | some (.file _) => .error .notDirectory
    | some .directory =>
      match Component.ofSegment? piece with
      | some .parent => tree.follow place.dropLast pieces
      | some (.name text) =>
        if maxName < text.utf8ByteSize then .error .nameTooLong
        else tree.follow (place ++ [text]) pieces
      -- an empty piece and a point lead nowhere else
      | _ => tree.follow place pieces

/-- The place that a path with the given pieces leads to. -/
def locatePieces (tree : FileTree) (path : Path) (pieces : List (List Char)) :
    Except Fault Location :=
  if '\x00' ∈ path.chars then .error .nulCharacter
  else if path.isEmpty then .error .notFound
  else if pathBound ≤ path.text.utf8ByteSize then .error .nameTooLong
  else tree.follow (if path.isAbsolute then [] else tree.workingDirectory) pieces

/-- The place that a path leads to. The last name need not be there. -/
def locate (tree : FileTree) (path : Path) : Except Fault Location :=
  tree.locatePieces path (segments '/' path.chars)

/-- What a path leads to. -/
def find (tree : FileTree) (path : Path) : Except Fault FileEntry := do
  let place ← tree.locate path
  match tree.get? place with
  | some entry => return entry
  | none => throw .notFound

/-- The path leads to something. -/
def hasEntry (tree : FileTree) (path : Path) : Bool :=
  match tree.find path with
  | .ok _ => true
  | .error _ => false

/-- The path leads to a file. -/
def hasFile (tree : FileTree) (path : Path) : Bool :=
  match tree.find path with
  | .ok (.file _) => true
  | _ => false

/-- The path leads to a directory. -/
def hasDirectory (tree : FileTree) (path : Path) : Bool :=
  match tree.find path with
  | .ok .directory => true
  | _ => false

/-! ### Files -/

/-- The content of a file. -/
def read (tree : FileTree) (path : Path) : Except Fault Bytes := do
  match ← tree.find path with
  | .file content => return content
  | .directory => throw .isDirectory

/-- The content of a file as text. -/
def readText (tree : FileTree) (path : Path) : Except Fault String := do
  let content ← tree.read path
  match String.fromUTF8? ⟨content⟩ with
  | some text => return text
  | none => throw .notUtf8

/-! ### Walking -/

/-- The names that lead from one place down to another one. -/
def namesBelow? (top place : Location) : Option (List String) :=
  if top.isPrefixOf place then some (place.drop top.length) else none

/-- The path that some names lead to. -/
def pathBelow (path : Path) (names : List String) : Path :=
  names.foldl (fun path name => path.join ⟨name⟩) path

/-- The files in a directory, or at any depth below it. -/
def filesIn (tree : FileTree) (path : Path) (deep : Bool) : List Path :=
  match tree.locate path with
  | .error _ => []
  | .ok top =>
    tree.entries.filterMap fun (place, entry) =>
      match entry, namesBelow? top place with
      | .file _, some names =>
        if names.length = 1 ∨ (deep ∧ names ≠ []) then some (pathBelow path names) else none
      | _, _ => none

end FileTree

end PublicAssembly
