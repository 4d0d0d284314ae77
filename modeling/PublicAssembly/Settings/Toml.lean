import PublicAssembly.Run.Basic
import PublicAssembly.Settings.Basic
import PublicAssembly.Toml.Reader
import PublicAssembly.Toml.Writer

/-!
# Settings files

The sections of a configuration text. Every key may be missing and unknown keys are passed over. A
section may also be given as an array with its values in order, and a date in its place counts as a
section that sets nothing. A text that is written has every setting in it.

Settings are read from the file that is named, or else from the first of some usual files that is
there. Without any file the default settings hold.
-/

namespace PublicAssembly

open Toml (Value Fault writeSection writeEntry writeString writeBoolean writeStrings)
open Text (Position)

namespace Settings

/-! ### Reading -/

/-- A text. -/
def text? : Value → Option String
  | .string text => some text
  | _ => none

/-- A truth value. -/
def flag? : Value → Option Bool
  | .boolean value => some value
  | _ => none

/-- An array of texts. -/
def texts? : Value → Option (List String)
  | .array items => items.mapM text?
  | _ => none

/-- The values of a section under some keys, in the order of the keys. -/
def fields? (keys : List String) : Value → Option (List (Option Value))
  | .table _ entries => some (keys.map fun key => entries.lookup key)
  | .array items => some ((List.range keys.length).map fun i => items[i]?)
  | .tables elements =>
    some ((List.range keys.length).map fun i => elements[i]?.map (.table .header))
  | .date => some (keys.map fun _ => none)
  | _ => none

/-- A value that may be missing. -/
def orElse {α : Type} (read? : Value → Option α) (default : α) : Option Value → Option α
  | some value => read? value
  | none => some default

/-- The section about outputs. -/
def output? (value : Value) : Option OutputSettings := do
  let default : OutputSettings := {}
  match ← fields? ["directory", "suffix"] value with
  | [directory, suffix] => do
    let directory ← orElse (fun v => (text? v).map Path.mk) default.directory directory
    let suffix ← orElse text? default.suffix suffix
    return { directory, suffix }
  | _ => none

/-- The section about what is done to a module. -/
def promotion? (value : Value) : Option PromotionSettings := do
  let default : PromotionSettings := {}
  match ← fields? ["strip_bodies", "exclude_event_backing_fields"] value with
  | [stripBodies, keepEventFields] => do
    let stripBodies ← orElse flag? default.stripBodies stripBodies
    let keepEventFields ← orElse flag? default.keepEventFields keepEventFields
    return { stripBodies, keepEventFields }
  | _ => none

/-- The section about directories among the inputs. -/
def search? (value : Value) : Option SearchSettings := do
  let default : SearchSettings := {}
  match ← fields? ["extensions", "recursive"] value with
  | [extensions, recursive] => do
    let extensions ← orElse texts? default.extensions extensions
    let recursive ← orElse flag? default.recursive recursive
    return { extensions, recursive }
  | _ => none

/-- The settings of a table. -/
def ofEntries? (entries : List (String × Value)) : Option Settings := do
  let output ← orElse output? {} (entries.lookup "output")
  let promotion ← orElse promotion? {} (entries.lookup "rewrite")
  let search ← orElse search? {} (entries.lookup "batch")
  return { output, promotion, search }

/-- The settings of a configuration text. -/
def ofToml (text : String) : Except Fault Settings := do
  let entries ← Toml.read text
  match ofEntries? entries with
  | some settings => return settings
  | none => throw ⟨.mismatch, Position.start⟩

/-! ### Writing -/

/-- The configuration text of some settings. -/
def toToml (settings : Settings) : String :=
  String.ofList (
    writeSection "output" [
      writeEntry "directory" (writeString settings.output.directory.text),
      writeEntry "suffix" (writeString settings.output.suffix)] ++ ['\n'] ++
    writeSection "rewrite" [
      writeEntry "strip_bodies" (writeBoolean settings.promotion.stripBodies),
      writeEntry "exclude_event_backing_fields"
        (writeBoolean settings.promotion.keepEventFields)] ++ ['\n'] ++
    writeSection "batch" [
      writeEntry "extensions" (writeStrings settings.search.extensions),
      writeEntry "recursive" (writeBoolean settings.search.recursive)])

/-! ### Files -/

/-- The settings of a file. -/
def read (files : FileTree) (path : Path) : Except Error Settings :=
  match files.readText path with
  | .error fault => .error (.files fault)
  | .ok text =>
    match ofToml text with
    | .error fault => .error (.settings (.toml fault))
    | .ok settings => .ok settings

/-- Where settings are looked for if no file is named. -/
def usualPaths : List Path :=
  [⟨"Publicizer.toml"⟩, ⟨"publicizer.toml"⟩, ⟨".publicizer.toml"⟩]

/-- The settings of the file that is named, or else of a usual one. -/
def find (files : FileTree) : Option Path → Except Error Settings
  | some path =>
    if files.hasEntry path then read files path else .error (.settings (.missing path))
  | none =>
    match usualPaths.find? files.hasEntry with
    | some path => read files path
    | none => .ok {}

/-- Write settings to a file. -/
def save (settings : Settings) (path : Path) : Run Unit :=
  Run.replace .files (·.writeText path settings.toToml)

end Settings

end PublicAssembly
