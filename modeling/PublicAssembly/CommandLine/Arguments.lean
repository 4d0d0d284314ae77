import PublicAssembly.Files.Path

/-!
# Arguments

Reading a command line. Options may stand among the inputs; the value of an option is the next argument,
or follows it in the same one. A value, and the inputs in a row, are pending until the next option
or the end of the command line settles them, so a fault further on may be found first.
-/

namespace PublicAssembly.CommandLine

/-- Why a command line is rejected. -/
inductive Fault where
  /-- There is no option of this name. -/
  | unknown (argument : String)
  /-- A flag is given a value. -/
  | unwantedValue (flag value : String)
  /-- The value of an option is missing or empty. -/
  | missingValue (option : String)
  /-- An option is given twice that can be given once. -/
  | repeated (option : String)
  deriving DecidableEq, Repr

/-- The wording of a fault. -/
def Fault.message : Fault → String
  | unknown argument => s!"error: unexpected argument '{argument}' found"
  | unwantedValue flag value =>
    s!"error: unexpected value '{value}' for '{flag}' found; no more were expected"
  | missingValue option => s!"error: a value is required for '{option}' but none was supplied"
  | repeated option => s!"error: the argument '{option}' cannot be used multiple times"

/-- An option with a value. -/
inductive ValueOption where
  | input
  | output
  | suffix
  | report
  | config
  deriving DecidableEq, Repr

/-- An option without a value. -/
inductive Flag where
  | stripBodies
  | wait
  | verbose
  | help
  | version
  deriving DecidableEq, Repr

/-- An option. -/
inductive Switch where
  /-- One with a value. -/
  | valued (option : ValueOption)
  /-- One without a value. -/
  | flag (flag : Flag)
  deriving DecidableEq, Repr

/-- An option as a message shows it. -/
def ValueOption.shown : ValueOption → String
  | input => "--input <PATH>"
  | output => "--output <PATH>"
  | suffix => "--suffix <TEXT>"
  | report => "--report <PATH>"
  | config => "--config <CONFIG>"

/-- An option as a message shows it. -/
def Flag.shown : Flag → String
  | stripBodies => "--strip-bodies"
  | wait => "--wait"
  | verbose => "--verbose"
  | help => "--help"
  | version => "--version"

/-- The options by their names behind two hyphens. -/
def longSwitches : List (String × Switch) := [
  ("input", .valued .input), ("output", .valued .output), ("suffix", .valued .suffix),
  ("report", .valued .report), ("config", .valued .config),
  ("strip-bodies", .flag .stripBodies), ("wait", .flag .wait), ("verbose", .flag .verbose),
  ("help", .flag .help), ("version", .flag .version)]

/-- The options by their letters behind one hyphen. -/
def shortSwitches : List (Char × Switch) := [
  ('i', .valued .input), ('o', .valued .output), ('s', .valued .suffix), ('c', .valued .config),
  ('v', .flag .verbose), ('h', .flag .help), ('V', .flag .version)]

/-- What a command line says. -/
structure Arguments where
  /-- The inputs that are no value of an option. -/
  inputs : List Path := []
  /-- The inputs that are values of an option. -/
  moreInputs : List Path := []
  /-- The output argument. -/
  output : Option String := none
  /-- The suffix for the names of copies. -/
  suffix : Option String := none
  /-- Empty the bodies of methods. -/
  stripBodies : Bool := false
  /-- Wait before the end. -/
  wait : Bool := false
  /-- Where the report goes. -/
  report : Option Path := none
  /-- The settings file. -/
  config : Option Path := none
  /-- Show details in the log. -/
  verbose : Bool := false
  deriving DecidableEq, Repr

/-- Why the reading of a command line ends before its end. -/
inductive Stop where
  /-- The command line is rejected. -/
  | rejected (fault : Fault)
  /-- The help text is asked for. -/
  | help
  /-- The version is asked for. -/
  | version
  deriving DecidableEq, Repr

namespace Arguments

/-- The path of a value, which must have a text. -/
def pathOf (option value : String) : Except Fault Path :=
  if value.isEmpty then .error (.missingValue option) else .ok ⟨value⟩

/-- Fail if an option has been given. -/
def once (option : String) (given : Bool) : Except Fault Unit :=
  if given then .error (.repeated option) else .ok ()

/-- Give an option a value. -/
def assign (arguments : Arguments) (option : ValueOption) (value : String) :
    Except Fault Arguments := do
  match option with
  | .input => do
    let path ← pathOf option.shown value
    return { arguments with moreInputs := arguments.moreInputs ++ [path] }
  | .output => do
    once option.shown arguments.output.isSome
    return { arguments with output := some value }
  | .suffix => do
    once option.shown arguments.suffix.isSome
    return { arguments with suffix := some value }
  | .report => do
    once option.shown arguments.report.isSome
    let path ← pathOf option.shown value
    return { arguments with report := some path }
  | .config => do
    once option.shown arguments.config.isSome
    let path ← pathOf option.shown value
    return { arguments with config := some path }

/-- Set a flag. -/
def raise (arguments : Arguments) (flag : Flag) : Except Stop Arguments :=
  let set (given : Bool) (raised : Arguments) : Except Stop Arguments :=
    match once flag.shown given with
    | .ok () => .ok raised
    | .error fault => .error (.rejected fault)
  match flag with
  | .stripBodies => set arguments.stripBodies { arguments with stripBodies := true }
  | .wait => set arguments.wait { arguments with wait := true }
  | .verbose => set arguments.verbose { arguments with verbose := true }
  | .help => .error .help
  | .version => .error .version

/-- Add some inputs. -/
def addInputs (arguments : Arguments) (values : List String) : Except Fault Arguments := do
  let paths ← values.mapM (pathOf "[INPUTS]...")
  return { arguments with inputs := arguments.inputs ++ paths }

end Arguments

/-- What was read but is not settled. -/
inductive Pending where
  /-- Nothing. -/
  | nothing
  /-- Some inputs. -/
  | inputs (values : List String)
  /-- An option, and its value if that was read. -/
  | value (option : ValueOption) (value : Option String)
  deriving DecidableEq, Repr

/-- What was read of a command line. -/
structure Reading where
  /-- What is settled. -/
  arguments : Arguments := {}
  /-- What is not settled. -/
  pending : Pending := .nothing
  deriving DecidableEq, Repr

namespace Reading

/-- Settle what is pending. -/
def settle (reading : Reading) : Except Stop Arguments :=
  let settled : Except Fault Arguments :=
    match reading.pending with
    | .nothing => .ok reading.arguments
    | .inputs values => reading.arguments.addInputs values
    | .value option none => .error (.missingValue option.shown)
    | .value option (some value) => reading.arguments.assign option value
  match settled with
  | .ok arguments => .ok arguments
  | .error fault => .error (.rejected fault)

/-- Read an input. -/
def input (reading : Reading) (value : String) : Except Stop Reading := do
  match reading.pending with
  | .inputs values => return { reading with pending := .inputs (values ++ [value]) }
  | _ => do
    let arguments ← reading.settle
    return ⟨arguments, .inputs [value]⟩

/-- Read an option with a value, which follows in the same argument or is awaited. -/
def valued (reading : Reading) (option : ValueOption) (value : Option String) :
    Except Stop Reading := do
  let arguments ← reading.settle
  match value with
  | none => return ⟨arguments, .value option none⟩
  | some value =>
    match arguments.assign option value with
    | .ok arguments => return ⟨arguments, .nothing⟩
    | .error fault => throw (.rejected fault)

/-- Read an option without a value. -/
def raise (reading : Reading) (flag : Flag) : Except Stop Reading := do
  let arguments ← reading.settle
  let arguments ← arguments.raise flag
  return ⟨arguments, .nothing⟩

/-- Read an argument behind two hyphens. -/
def long (reading : Reading) (text : List Char) : Except Stop Reading :=
  let name := text.takeWhile (· != '=')
  let value : Option String := match text.dropWhile (· != '=') with
    | _ :: value => some (String.ofList value)
    | [] => none
  match longSwitches.lookup (String.ofList name) with
  | none => .error (.rejected (.unknown (String.ofList ('-' :: '-' :: text))))
  | some (.valued option) => reading.valued option value
  | some (.flag flag) =>
    match value with
    | some value => .error (.rejected (.unwantedValue flag.shown value))
    | none => reading.raise flag

/-- Read the letters behind one hyphen. A letter of an option with a value is the last one. -/
def short (reading : Reading) : List Char → Except Stop Reading
  | [] => .ok reading
  | letter :: rest =>
    match shortSwitches.lookup letter with
    | none => .error (.rejected (.unknown (String.ofList ['-', letter])))
    | some (.flag flag) => do
      let reading ← reading.raise flag
      short reading rest
    | some (.valued option) =>
      match rest with
      | [] => reading.valued option none
      -- what stands behind the letter is the value, with a sign in between or without
      | '=' :: value => reading.valued option (some (String.ofList value))
      | value => reading.valued option (some (String.ofList value))

/-- Read an argument. -/
def argument (reading : Reading) (text : String) : Except Stop Reading :=
  match text.toList with
  | '-' :: '-' :: rest => reading.long rest
  | '-' :: letter :: rest => reading.short (letter :: rest)
  | _ =>
    match reading.pending with
    | .value option none => .ok { reading with pending := .value option (some text) }
    | _ => reading.input text

/-- Read some arguments. Behind two hyphens alone there are only inputs. -/
def all (reading : Reading) : List String → Except Stop Reading
  | [] => .ok reading
  | text :: rest =>
    if text = "--" then rest.foldlM input reading
    else do
      let reading ← reading.argument text
      reading.all rest

end Reading

/-- What a command line says, without the name of the program. -/
def read (texts : List String) : Except Stop Arguments := do
  let reading ← Reading.all {} texts
  reading.settle

end PublicAssembly.CommandLine
