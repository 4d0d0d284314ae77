import PublicAssembly.CommandLine.Arguments
import PublicAssembly.Output.Request
import PublicAssembly.Settings.Toml

/-!
# Plans

Everything that a run needs, fixed before any input is looked at: the command line over the
settings.
-/

namespace PublicAssembly

/-- Everything that a run needs. -/
structure Plan where
  /-- The inputs. -/
  inputs : List Path
  /-- What the output argument asks for. -/
  output : Option OutputRequest
  /-- The settings. -/
  settings : Settings
  /-- Where the report goes. -/
  report : Option Path
  /-- Wait before the end. -/
  wait : Bool
  deriving DecidableEq, Repr

namespace Plan

open CommandLine (Arguments)

/-- The inputs of a command line. There is at least one, and each has a text. -/
def inputsOf (arguments : Arguments) : Except Error (List Path) :=
  let inputs := arguments.inputs ++ arguments.moreInputs
  if inputs.isEmpty then .error .missingInput
  else if inputs.any Path.isEmpty then .error (.argument .emptyInput)
  else .ok inputs

/-- The request of the output argument of a command line. -/
def outputOf (files : FileTree) (arguments : Arguments) :
    Except Error (Option OutputRequest) :=
  match arguments.output with
  | none => .ok none
  | some text =>
    match OutputRequest.parse files text with
    | .ok request => .ok (some request)
    | .error fault => .error (.invalidOutput fault)

/-- The settings with the suffix of a command line, which must not separate names. -/
def withSuffix (settings : Settings) : Option String → Except Error Settings
  | none => .ok settings
  | some suffix =>
    if suffix.toList.any OutputRequest.isSeparator then
      .error (.argument (.separatorInSuffix suffix))
    else .ok { settings with output := { settings.output with suffix } }

/-- The settings with the flag of a command line that asks for bodies to be emptied. -/
def withStripping (settings : Settings) (strip : Bool) : Settings :=
  { settings with promotion := { settings.promotion with
      stripBodies := settings.promotion.stripBodies || strip } }

/-- The plan of a command line, given the files that are there. -/
def ofArguments (files : FileTree) (arguments : Arguments) : Except Error Plan := do
  let inputs ← inputsOf arguments
  let output ← outputOf files arguments
  let settings ← Settings.find files arguments.config
  let settings ← withSuffix settings arguments.suffix
  return {
    inputs
    output
    settings := withStripping settings arguments.stripBodies
    report := arguments.report
    wait := arguments.wait }

end Plan

end PublicAssembly
