import PublicAssembly.Batch.Report
import PublicAssembly.CommandLine.Plan
import PublicAssembly.Log.Line

/-!
# The program

What the program does with a command line: it reads it, makes a plan, works on the inputs and writes the
report. All of it is a function of the command line, the time and the files.
-/

namespace PublicAssembly

namespace CommandLine

/-- The lines of the help text. -/
def helpLines : List String := [
  "Creates a copy of an assembly in which all members are public",
  "",
  "Usage: assembly-publicizer [OPTIONS] [INPUTS]...",
  "",
  "Arguments:",
  "  [INPUTS]...  Assemblies to publicize, or directories containing them",
  "",
  "Options:",
  "  -i, --input <PATH>     Additional input assembly",
  "  -o, --output <PATH>    Output directory, file name, or both",
  "  -s, --suffix <TEXT>    Suffix appended to the input name when no output file name is given",
  "      --strip-bodies     Empty every method body to produce a reference-only assembly",
  "      --wait             Wait for Enter before exiting",
  "      --report <PATH>    Write a JSON report of the run",
  "  -c, --config <CONFIG>  Path to configuration file",
  "  -v, --verbose          Enable verbose logging",
  "  -h, --help             Print help",
  "  -V, --version          Print version"]

/-- The lines that tell the version. -/
def versionLines : List String :=
  [toolName ++ " " ++ toolVersion]

end CommandLine

open CommandLine (Arguments Stop)

/-- What the program leaves behind. -/
structure Finished where
  /-- The files afterwards. -/
  files : FileTree
  /-- The log lines that are shown. -/
  log : List LogLine := []
  /-- The other lines that are printed. -/
  printed : List String := []
  /-- Wait for a line of input before the end. -/
  wait : Bool := false
  /-- The exit code. -/
  exitCode : Int

namespace Program

/-- The first line of every log. -/
def startLine : LogLine :=
  .info s!"Starting Assembly Publicizer v{toolVersion}"

/-- The lines of a log that are shown, as a terminal takes them. -/
def shown (verbose : Bool) (log : List LogLine) : List LogLine :=
  let chosen := if verbose then log else log.filter fun line => line.level != .debug
  chosen.map LogLine.inert

/-- What is printed when the program waits. -/
def waitLines (wait : Bool) : List String :=
  if wait then ["Press Enter to exit..."] else []

/-- The wording of a failure to write the report, down to its cause. -/
def reportFailure (path : Path) (error : Error) : String :=
  let cause := match error with
    | .files fault => ": " ++ fault.message
    | _ => ""
  s!"Failed to write run report to {path.text}: " ++ error.message ++ cause

/-- Work on the inputs of a plan and write the report. The result is the exit code. -/
def execute (plan : Plan) (time : String) : Run Int := do
  let summary ← Batch.run plan.settings plan.inputs plan.output
  match plan.report with
  | none => return summary.exitCode
  | some path => fun files =>
    match summary.writeReport time path files with
    | ⟨files, log, .ok ()⟩ => ⟨files, log, .ok summary.exitCode⟩
    | ⟨files, log, .error error⟩ => ⟨files, log ++ [.error (reportFailure path error)], .ok 1⟩

/-- The end of a run that fails before it looks at an input. -/
def rejected (files : FileTree) (verbose wait : Bool) (error : Error) : Finished :=
  { files
    log := shown verbose [startLine, .error error.message]
    printed := waitLines wait
    wait
    exitCode := error.exitCode }

/-- The end of a run that has a plan. -/
def planned (files : FileTree) (verbose : Bool) (plan : Plan) (time : String) : Finished :=
  let ran := execute plan time files
  let (lines, exitCode) : List LogLine × Int := match ran.result with
    | .ok exitCode => ([], exitCode)
    | .error error => ([.error error.message], 1)
  { files := ran.files
    log := shown verbose (startLine :: ran.log ++ lines)
    printed := waitLines plan.wait
    wait := plan.wait
    exitCode }

/-- Run the program. A command line that is rejected still waits if one of its arguments asks for it. -/
def run (texts : List String) (time : String) (files : FileTree) : Finished :=
  let asksToWait := texts.contains "--wait"
  match CommandLine.read texts with
  | .error .help => { files, printed := CommandLine.helpLines, exitCode := 0 }
  | .error .version => { files, printed := CommandLine.versionLines, exitCode := 0 }
  | .error (.rejected fault) => rejected files false asksToWait (.argument (.commandLine fault))
  | .ok arguments =>
    match Plan.ofArguments files arguments with
    | .error error => rejected files arguments.verbose asksToWait error
    | .ok plan => planned files arguments.verbose plan time

end Program

end PublicAssembly
