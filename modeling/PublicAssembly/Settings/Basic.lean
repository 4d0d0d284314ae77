import PublicAssembly.Files.Path

/-!
# Settings

What a run can be told beyond its inputs: where copies go, what is done to a module, and how a
directory among the inputs is searched.
-/

namespace PublicAssembly

/-- Where copies go. -/
structure OutputSettings where
  /-- The directory for copies when the output names none. -/
  directory : Path := ⟨"publicized_assemblies"⟩
  /-- What is put behind the stem of an input name when the output names no file. -/
  suffix : String := "_publicized"
  deriving DecidableEq, Repr

/-- What is done to a module. -/
structure PromotionSettings where
  /-- Empty the bodies of methods. -/
  stripBodies : Bool := false
  /-- Keep the access of fields that are named like an event. -/
  keepEventFields : Bool := true
  deriving DecidableEq, Repr

/-- How a directory among the inputs is searched. -/
structure SearchSettings where
  /-- The extensions of modules. -/
  extensions : List String := ["dll", "exe"]
  /-- Search the directories below it too. -/
  recursive : Bool := false
  deriving DecidableEq, Repr

/-- What a run can be told beyond its inputs. -/
structure Settings where
  /-- Where copies go. -/
  output : OutputSettings := {}
  /-- What is done to a module. -/
  promotion : PromotionSettings := {}
  /-- How a directory among the inputs is searched. -/
  search : SearchSettings := {}
  deriving DecidableEq, Repr

end PublicAssembly
