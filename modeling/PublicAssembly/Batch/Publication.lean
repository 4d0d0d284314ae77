import PublicAssembly.Bytes.Digest
import PublicAssembly.Format.Basic
import PublicAssembly.Output.Target
import PublicAssembly.Promotion.Basic

/-!
# Publication

The work on one input: the module is read, promoted, perhaps stripped, and written to its target.
Nothing is written before the module is ready, so an input that cannot be read leaves all files as
they are.
-/

namespace PublicAssembly

/-- What is known of a copy that was written. -/
structure Publication where
  /-- The path of the input. -/
  input : Path
  /-- The path of the copy. -/
  output : Path
  /-- The format of both. -/
  format : Format
  /-- What was made public. -/
  counts : PromotionCounts
  /-- The number of bodies that were emptied. -/
  strippedBodies : Nat
  /-- The digest of the copy. -/
  digest : String
  deriving DecidableEq, Repr

namespace Publication

/-- What becomes of a module. -/
structure Prepared where
  /-- The module to write. -/
  module : Module
  /-- What was made public. -/
  counts : PromotionCounts
  /-- The number of bodies that were emptied. -/
  strippedBodies : Nat
  /-- The log lines, in order. -/
  lines : List LogLine

/-- The guard that the settings ask for. -/
def guardOf (settings : PromotionSettings) (m : Module) (order : List Nat) : Guard :=
  if settings.keepEventFields then .ofEvents m order else .none

/-- Make a module public, and strip it if the settings ask for it. -/
def prepare (settings : PromotionSettings) (m : Module) : Prepared :=
  let order := m.flatten
  -- the events of the module as it was read, before anything of it is made public
  let guard := guardOf settings m order
  let promoted := m.promote order guard
  let lines :=
    [.debug s!"Flattened {order.length} types of {m.name}",
      .debug s!"{guard.size} event names guard their backing fields"] ++
    promoted.lines ++ promoted.count.lines
  if settings.stripBodies then
    let stripped := promoted.module.strip order
    ⟨stripped.module, promoted.count, stripped.count,
      lines ++ stripped.lines ++ [.info s!"Stripped {stripped.count} method bodies."]⟩
  else ⟨promoted.module, promoted.count, 0, lines⟩

/-- Find out where a copy goes. -/
def findTarget (settings : OutputSettings) (input : Path) (request : Option OutputRequest) :
    Run OutputTarget := do
  Run.say (OutputTarget.resolveLines request)
  Run.ofExcept .argument (OutputTarget.resolve settings input request)

/-- Write a module to its target and return the digest of the file. -/
def save (format : Format) (m : Module) (target : OutputTarget) : Run String := do
  target.ensureDirectory
  let path := target.path
  Run.say [.info s!"Saving {path.text}"]
  format.write m path
  let written ← Run.ofExcept (fun f => .write path (.files f)) (← Run.look (·.read path))
  return written.sha256

/-- The work on one input. -/
def run (settings : Settings) (input : Path) (request : Option OutputRequest) :
    Run Publication := do
  if ← Run.look (·.hasFile input) then
    let format := Format.ofPath input
    Run.say [.info s!"Reading {input.text} as {format.name}"]
    let m ← format.read input
    let prepared := prepare settings.promotion m
    Run.say prepared.lines
    let target ← findTarget settings.output input request
    let digest ← save format prepared.module target
    return {
      input
      output := target.path
      format
      counts := prepared.counts
      strippedBodies := prepared.strippedBodies
      digest }
  else Run.fail (.notFound input)

end Publication

end PublicAssembly
