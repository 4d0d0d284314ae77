import PublicAssembly.Files.Tree
import PublicAssembly.Run.Error
import PublicAssembly.Text.Basic

/-!
# Output requests

What an output argument asks for: a directory, a file name, or both. An argument that ends with a
separator or names a directory that is there asks for the directory alone; otherwise its last
component is the file name.
-/

namespace PublicAssembly

/-- What an output argument asks for. -/
structure OutputRequest where
  /-- The directory for copies. -/
  directory : Option Path := none
  /-- The file name of the copy. -/
  fileName : Option String := none
  deriving DecidableEq, Repr

namespace OutputRequest

/-- The request for a directory alone. -/
def ofDirectory (directory : Path) : OutputRequest :=
  { directory := some directory }

/-- The character separates names in an output argument. -/
def isSeparator (c : Char) : Bool :=
  c == '/' || c == '\\'

/-- The text without the separators at its end, or its first character if nothing is left. -/
def dropSeparators (cs : List Char) : List Char :=
  match (cs.reverse.dropWhile isSeparator).reverse with
  | [] => cs.take 1
  | kept => kept

/-- The text ends with a separator. -/
def endsWithSeparator (cs : List Char) : Bool :=
  match cs.getLast? with
  | some c => isSeparator c
  | none => false

/-- Split a path into its directory and its file name. -/
def ofPath (path : Path) : Except OutputFault OutputRequest :=
  match path.fileName? with
  | none => .error (.noFileName path.text)
  | some name =>
    .ok { directory := path.parent?.filter fun above => !above.isEmpty, fileName := some name }

/-- The request of an output argument, given the files that are there. -/
def parse (files : FileTree) (argument : String) : Except OutputFault OutputRequest :=
  let text := Text.trim argument
  let cs := text.toList
  if cs.isEmpty then .error .empty
  else if cs.contains '\x00' then .error (.nulCharacter text)
  else if endsWithSeparator cs then .ok (ofDirectory (.ofChars (dropSeparators cs)))
  else if files.hasDirectory ⟨text⟩ then .ok (ofDirectory ⟨text⟩)
  else ofPath ⟨text⟩

/-- The request with all of it taken for a directory, for inputs that share it. -/
def toDirectory (request : OutputRequest) : OutputRequest :=
  match request.directory, request.fileName with
  | some directory, some name => ofDirectory (directory.join ⟨name⟩)
  | none, some name => ofDirectory ⟨name⟩
  | directory, none => { directory }

end OutputRequest

end PublicAssembly
