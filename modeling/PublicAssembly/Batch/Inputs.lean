import PublicAssembly.Files.Tree
import PublicAssembly.Format.Basic
import PublicAssembly.Settings.Basic

/-!
# Inputs

A directory among the inputs stands for the modules in it, in the order of their paths. A directory
without modules stands for itself, so that it fails as no file.
-/

namespace PublicAssembly

namespace SearchSettings

/-- The extension without the points in front of it. -/
def bareExtension (extension : String) : String :=
  String.ofList (extension.toList.dropWhile (· == '.'))

/-- The file has an extension of a module. -/
def isModule (settings : SearchSettings) (path : Path) : Bool :=
  match path.extension? with
  | none => false
  | some extension =>
    settings.extensions.any fun wanted =>
      Format.equalIgnoringCase (bareExtension wanted) extension

/-- The modules in a directory, in the order of their paths. -/
def modulesIn (settings : SearchSettings) (files : FileTree) (directory : Path) : List Path :=
  ((files.filesIn directory settings.recursive).filter settings.isModule).mergeSort Path.le

/-- The inputs that an input stands for. -/
def expandOne (settings : SearchSettings) (files : FileTree) (input : Path) : List Path :=
  if files.hasDirectory input then
    match settings.modulesIn files input with
    | [] => [input]
    | modules => modules
  else [input]

/-- What the log says when an input is looked at. -/
def expandOneLines (settings : SearchSettings) (files : FileTree) (input : Path) :
    List LogLine :=
  if files.hasDirectory input then
    match settings.modulesIn files input with
    | [] => [.warn s!"No modules found in {input.text}"]
    | modules => [.info s!"Found {modules.length} modules in {input.text}"]
  else []

/-- The inputs that some inputs stand for. -/
def expand (settings : SearchSettings) (files : FileTree) (inputs : List Path) : List Path :=
  inputs.flatMap (settings.expandOne files)

/-- What the log says when some inputs are looked at. -/
def expandLines (settings : SearchSettings) (files : FileTree) (inputs : List Path) :
    List LogLine :=
  inputs.flatMap (settings.expandOneLines files)

end SearchSettings

end PublicAssembly
