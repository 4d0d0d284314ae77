import PublicAssembly.Output.Request
import PublicAssembly.Run.Basic
import PublicAssembly.Settings.Basic

/-!
# Output targets

Where the copy of an input goes. What a request leaves open comes from the settings: the directory,
and the name of the input with a suffix behind its stem.
-/

namespace PublicAssembly

/-- Where the copy of an input goes. -/
structure OutputTarget where
  /-- The directory. -/
  directory : Path
  /-- The file name. -/
  fileName : String
  deriving DecidableEq, Repr

namespace OutputTarget

/-- The path of the copy. -/
def path (target : OutputTarget) : Path :=
  target.directory.join ⟨target.fileName⟩

/-- A name with a suffix between its stem and its extension. -/
def suffixedName (name suffix : List Char) : List Char :=
  let (stem, extension) := Path.splitExtension name
  stem ++ suffix ++ (extension.map ('.' :: ·)).getD []

/-- An empty suffix changes nothing. -/
theorem suffixedName_nil (name : List Char) : suffixedName name [] = name := by
  simp [suffixedName, Path.splitExtension_append]

/-- The name of the copy of an input if nothing else is asked for. -/
def defaultName (settings : OutputSettings) (input : Path) : Except ArgumentFault String :=
  match input.fileName? with
  | none => .error (.noFileName input)
  | some name => .ok (String.ofList (suffixedName name.toList settings.suffix.toList))

/-- The file name that a request asks for. -/
def requestedName? (request : Option OutputRequest) : Option String :=
  request.bind OutputRequest.fileName

/-- Where the copy of an input goes. -/
def resolve (settings : OutputSettings) (input : Path) (request : Option OutputRequest) :
    Except ArgumentFault OutputTarget := do
  let fileName ← match requestedName? request with
    | some name => .ok name
    | none => defaultName settings input
  let directory := (request.bind OutputRequest.directory).getD settings.directory
  return { directory, fileName }

/-- What the log says when a target is resolved. -/
def resolveLines (request : Option OutputRequest) : List LogLine :=
  match requestedName? request with
  | some _ => []
  | none => [.debug "Using default output name"]

/-- Make the directory of a target if it is missing. -/
def ensureDirectory (target : OutputTarget) : Run Unit := do
  if target.directory.isEmpty || (← Run.look (·.hasDirectory target.directory)) then
    pure ()
  else do
    Run.say [.debug s!"Creating output directory {target.directory.text}"]
    Run.change (.createDirectory target.directory) (·.makeDirectoryPath target.directory)

end OutputTarget

end PublicAssembly
