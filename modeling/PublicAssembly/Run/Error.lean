import PublicAssembly.CommandLine.Arguments
import PublicAssembly.Document.Module
import PublicAssembly.Files.Tree
import PublicAssembly.Image.Fault
import PublicAssembly.Json.Basic
import PublicAssembly.Text.Printable
import PublicAssembly.Toml.Basic

/-!
# Errors

Why a run, or the work on one of its inputs, fails. An error names the stage that failed and the
cause; its exit code tells the stage alone.
-/

namespace PublicAssembly

open Text (quoted)

/-- What is wrong with an output argument. -/
inductive OutputFault where
  /-- It has no text. -/
  | empty
  /-- It holds a character that ends a name. -/
  | nulCharacter (argument : String)
  /-- Its last component is no file name. -/
  | noFileName (argument : String)
  /-- Anything else, in words. -/
  | other (text : String)
  deriving DecidableEq, Repr

/-- The wording of what is wrong with an output argument. -/
def OutputFault.message : OutputFault → String
  | empty => "output argument is empty"
  | nulCharacter argument => s!"output argument {quoted argument} contains a NUL byte"
  | noFileName argument => s!"{argument} does not name a file"
  | other text => text

/-- What is wrong with an argument. -/
inductive ArgumentFault where
  /-- The path of an input has no file name. -/
  | noFileName (input : Path)
  /-- The path of an input has no text. -/
  | emptyInput
  /-- The suffix holds a character that separates names. -/
  | separatorInSuffix (suffix : String)
  /-- The command line is rejected. -/
  | commandLine (fault : CommandLine.Fault)
  /-- Anything else, in words. -/
  | other (text : String)
  deriving DecidableEq, Repr

/-- The wording of what is wrong with an argument. -/
def ArgumentFault.message : ArgumentFault → String
  | noFileName input => s!"{input.text} does not name a file"
  | emptyInput => "input path " ++ quoted "" ++ " is empty"
  | separatorInSuffix suffix => s!"suffix {quoted suffix} must not contain a path separator"
  | commandLine fault => fault.message
  | other text => text

/-- Why a module cannot be read. -/
inductive ReadFault where
  /-- The file cannot be read. -/
  | files (fault : Files.Fault)
  /-- The text is no document. -/
  | json (fault : Json.Fault)
  /-- The document contradicts itself. -/
  | document (fault : Document.Fault)
  /-- The image cannot be understood. -/
  | image (fault : Image.Fault)
  deriving DecidableEq, Repr

/-- The wording of why a module cannot be read. -/
def ReadFault.message : ReadFault → String
  | files fault => fault.message
  | json fault => fault.message
  | document fault => fault.message
  | image fault => fault.message

/-- Why a module cannot be written. -/
inductive WriteFault where
  /-- The file cannot be written. -/
  | files (fault : Files.Fault)
  /-- The module does not fit into its image. -/
  | image (fault : Image.Fault)
  /-- The module has no image that it could be written into. -/
  | noImage
  /-- An earlier input of the run was written there. -/
  | alreadyWritten (earlier : Path)
  deriving DecidableEq, Repr

/-- The wording of why a module cannot be written. -/
def WriteFault.message : WriteFault → String
  | files fault => fault.message
  | image fault => fault.message
  | noImage => "module was not read from a CIL image"
  | alreadyWritten earlier => s!"already written for {earlier.text} in this run"

/-- What is wrong with the settings. -/
inductive SettingsFault where
  /-- The file that was named is not there. -/
  | missing (path : Path)
  /-- The text cannot be read. -/
  | toml (fault : Toml.Fault)
  /-- Anything else, in words. -/
  | other (text : String)
  deriving DecidableEq, Repr

/-- The wording of what is wrong with the settings. -/
def SettingsFault.message : SettingsFault → String
  | missing path => s!"configuration file {path.text} not found"
  | toml fault => fault.message
  | other text => text

/-- Why a run, or the work on one of its inputs, fails. -/
inductive Error where
  /-- The run has no input. -/
  | missingInput
  /-- The output argument cannot be used. -/
  | invalidOutput (fault : OutputFault)
  /-- An argument cannot be used. -/
  | argument (fault : ArgumentFault)
  /-- An input is no file. -/
  | notFound (path : Path)
  /-- A module cannot be read. -/
  | read (path : Path) (fault : ReadFault)
  /-- The directory for a copy cannot be made. -/
  | createDirectory (path : Path) (fault : Files.Fault)
  /-- A module cannot be written. -/
  | write (path : Path) (fault : WriteFault)
  /-- The settings cannot be used. -/
  | settings (fault : SettingsFault)
  /-- A file cannot be read or written. -/
  | files (fault : Files.Fault)
  /-- A JSON text cannot be read. -/
  | json (fault : Json.Fault)
  deriving DecidableEq, Repr

namespace Error

/-- The wording of an error. -/
def message : Error → String
  | missingInput => "No input given. Provide the path to the assembly to publicize."
  | invalidOutput fault => "Invalid output argument: " ++ fault.message
  | argument fault => "Invalid argument: " ++ fault.message
  | notFound path => s!"File {path.text} doesn't exist or you don't have sufficient permissions"
  | read path fault => s!"Cannot read the assembly {path.text}: " ++ fault.message
  | createDirectory path fault =>
    s!"Cannot create output directory {path.text}: " ++ fault.message
  | write path fault => s!"Cannot create/overwrite {path.text}: " ++ fault.message
  | settings fault => "Configuration error: " ++ fault.message
  | files fault => "IO error: " ++ fault.message
  | json fault => "Serialization error: " ++ fault.message

/-- The exit code of a run that fails with the error alone. -/
def exitCode : Error → Int
  | missingInput => 10
  | invalidOutput _ => 20
  | argument _ => 10
  | notFound _ => 30
  | read _ _ => 40
  | createDirectory _ _ => 50
  | write _ _ => 50
  | settings _ => 10
  | files _ => 1
  | json _ => 1

/-- A failure never looks like success. -/
theorem exitCode_pos (error : Error) : 0 < error.exitCode := by
  cases error <;> simp [exitCode]

end Error

end PublicAssembly
