import PublicAssembly.CommandLine.Program
import PublicAssembly.Files.Change
import PublicAssembly.Text.Timestamp
import Std.Time.DateTime.Timestamp

/-!
# The command line

The thin layer around the program: it looks at the files that a command line names, runs the program on
them, writes down what has changed and shows the log.
-/

namespace PublicAssembly.Shell

/-- The text of an absolute path to a place. -/
def pathText (place : Location) : String :=
  "/" ++ "/".intercalate place

/-- The place of an absolute path. -/
def placeOf (text : String) : Location :=
  (text.splitOn "/").filter fun name => !name.isEmpty

/-- What is at a place on the disk, and the names in it if it is a directory. -/
def lookAt (place : Location) : IO (Option (FileEntry × List String)) := do
  try
    let path ← IO.FS.realPath (pathText place)
    if ← path.isDir then
      let inside ← path.readDir
      return some (.directory, inside.toList.map fun entry => entry.fileName)
    else
      let content ← IO.FS.readBinFile path
      return some (.file content.data, [])
  catch _ => return none

/-- Add what is at a place on the disk, and below it down to a depth. -/
def observe : (depth : Nat) → FileTree → Location → IO FileTree
  | depth, tree, place => do
    match ← lookAt place with
    | none => return tree
    | some (entry, names) =>
      let tree := if place = [] then tree else tree.set place entry
      match depth with
      | 0 => return tree
      | depth + 1 => names.foldlM (fun tree name => observe depth tree (place ++ [name])) tree

/-- Add the directories that lead to a place, and what is there and below it down to a depth. -/
def observeWithin (depth : Nat) (tree : FileTree) (place : Location) : IO FileTree := do
  let above := (List.range place.length).map place.take
  let tree ← above.foldlM (observe 0) tree
  observe depth tree place

/-- Add what a path leads to, and what is below it down to a depth. -/
def observePath (depth : Nat) (tree : FileTree) (path : Path) : IO FileTree := do
  let names := path.components.filterMap fun
    | .name text => some text
    | .parent => some ".."
    | _ => none
  let start := if path.isAbsolute then [] else tree.workingDirectory
  let place := names.foldl
    (fun place name => if name = ".." then place.dropLast else place ++ [name]) start
  observeWithin depth tree place

/-- The depth to which directories with modules are searched. -/
def searchDepth (settings : Settings) : Nat :=
  if settings.search.recursive then FileTree.pathBound else 1

/-- The files that the settings of a command line depend on. -/
def observeSettings (tree : FileTree) (arguments : CommandLine.Arguments) : IO FileTree := do
  let output := arguments.output.map fun text => Path.mk (Text.trim text)
  let paths := Settings.usualPaths ++ arguments.config.toList ++ output.toList
  paths.foldlM (observePath 0) tree

/-- The files that the work of a plan depends on. -/
def observePlan (tree : FileTree) (plan : Plan) : IO FileTree := do
  let tree ← plan.inputs.foldlM (observePath (searchDepth plan.settings)) tree
  let request := plan.output.map OutputRequest.toDirectory
  let directories := [plan.settings.output.directory] ++
    (plan.output.bind OutputRequest.directory).toList ++
    (request.bind OutputRequest.directory).toList
  (directories ++ plan.report.toList).foldlM (observePath 1) tree

/-- The files that a run with a command line depends on. -/
def observeAll (texts : List String) : IO FileTree := do
  let here := placeOf (← IO.currentDir).toString
  let tree ← observeWithin 0 { workingDirectory := here } here
  match CommandLine.read texts with
  | .error _ => return tree
  | .ok arguments =>
    let tree ← observeSettings tree arguments
    match Plan.ofArguments tree arguments with
    | .error _ => return tree
    | .ok plan => observePlan tree plan

/-- Make the change at a place on the disk. -/
def apply (change : Location × FileEntry) : IO Unit :=
  match change with
  | (place, .directory) => IO.FS.createDirAll (pathText place)
  | (place, .file content) => IO.FS.writeBinFile (pathText place) ⟨content⟩

/-- The time as a report shows it. -/
def now : IO String := do
  let moment ← Std.Time.Timestamp.now
  let nanoseconds := moment.toNanosecondsSinceUnixEpoch.toInt.toNat
  return Text.timestamp (nanoseconds / 1000000000) (nanoseconds % 1000000000)

/-- Run the program on the disk. -/
def run (texts : List String) : IO UInt32 := do
  let before ← observeAll texts
  let finished := Program.run texts (← now) before
  (before.changes finished.files).forM apply
  finished.log.forM fun line => IO.println line.render
  finished.printed.forM fun line => IO.println line
  if finished.wait then
    let _ ← (← IO.getStdin).getLine
  return finished.exitCode.toNat.toUInt32

end PublicAssembly.Shell

/-- The program. -/
def main (texts : List String) : IO UInt32 :=
  PublicAssembly.Shell.run texts
