import PublicAssembly.Batch.Basic
import PublicAssembly.Json.Writer

/-!
# Run reports

The record of a batch as a JSON text: the tool, the time, what became of each input, and the exit
code.
-/

namespace PublicAssembly

open Json (ofText ofMembers)

/-- The name of the tool. -/
def toolName : String :=
  "assembly-publicizer"

/-- The version of the tool. -/
def toolVersion : String :=
  "0.1.0"

/-- The JSON value of what a promotion changed. -/
def PromotionCounts.toJson (counts : PromotionCounts) : Json :=
  ofMembers [
    ("types", .ofNat counts.types),
    ("methods", .ofNat counts.methods),
    ("fields", .ofNat counts.fields),
    ("getters", .ofNat counts.getters),
    ("setters", .ofNat counts.setters),
    ("excluded_fields", .ofNat counts.keptFields)]

/-- The JSON value of what became of an input. -/
def Outcome.toJson : Outcome → Json
  | published publication => ofMembers [
    ("status", ofText "publicized"),
    ("input", ofText publication.input.text),
    ("output", ofText publication.output.text),
    ("format", ofText publication.format.name),
    ("rewrite", publication.counts.toJson),
    ("stripped_bodies", .ofNat publication.strippedBodies),
    ("sha256", ofText publication.digest)]
  | failed input message exitCode => ofMembers [
    ("status", ofText "failed"),
    ("input", ofText input.text),
    ("error", ofText message),
    ("exit_code", .integer exitCode)]

namespace Summary

/-- The JSON value of the report of a batch at a time. -/
def toJson (summary : Summary) (time : String) : Json :=
  ofMembers [
    ("tool", ofText toolName),
    ("version", ofText toolVersion),
    ("generated_at", ofText time),
    ("inputs", .array (summary.outcomes.map Outcome.toJson)),
    ("failures", .ofNat summary.failures),
    ("exit_code", .integer summary.exitCode)]

/-- Make the directory that a file is to be in. -/
def makeParent (path : Path) : Run Unit :=
  match path.parent? with
  | none => pure ()
  | some above =>
    if above.isEmpty then pure () else Run.change .files (·.makeDirectoryPath above)

/-- Write the report of a batch. -/
def writeReport (summary : Summary) (time : String) (path : Path) : Run Unit := do
  makeParent path
  Run.replace .files (·.writeText path (summary.toJson time).render)
  Run.say [.info s!"Wrote run report to {path.text}"]

end Summary

end PublicAssembly
