import PublicAssembly.Document.OfJson
import PublicAssembly.Document.ToJson
import PublicAssembly.Image.Patch
import PublicAssembly.Json.Reader
import PublicAssembly.Run.Basic

/-!
# Module formats

A module is stored as a document in JSON, or as an image. The extension of a path tells the format. A
module is written in the format it was read in: into a new document, or into the image it came
from.
-/

namespace PublicAssembly

/-- How a module is stored. -/
inductive Format where
  /-- A document in JSON. -/
  | json
  /-- An image. -/
  | image
  deriving DecidableEq, Repr

namespace Format

/-- The name of a format. -/
def name : Format → String
  | json => "json"
  | image => "cil"

/-- Two texts are equal if upper and lower case are the same in ASCII. -/
def equalIgnoringCase (a b : String) : Bool :=
  a.toLower == b.toLower

/-- The format of a file. -/
def ofPath (path : Path) : Format :=
  match path.extension? with
  | some extension => if equalIgnoringCase extension "json" then json else image
  | none => image

/-- The document of a text. -/
def documentOfText (text : String) : Except Json.Fault Document := do
  let value ← Json.read text.toList
  match Document.ofJson? value with
  | some document => return document
  | none => throw ⟨.mismatch "a module", .start⟩

/-- Read a document. -/
def readDocument (path : Path) : Run Module := do
  let text ← Run.ofExcept (fun f => .read path (.files f)) (← Run.look (·.readText path))
  let document ← Run.ofExcept (fun f => .read path (.json f)) (documentOfText text)
  Run.say document.moduleLines
  Run.ofExcept (fun f => .read path (.document f)) document.toModule

/-- Read an image. -/
def readImage (path : Path) : Run Module := do
  let data ← Run.ofExcept (fun f => .read path (.files f)) (← Run.look (·.read path))
  Run.say (Image.loadLines data)
  let m ← Run.ofExcept (fun f => .read path (.image f)) (Image.load data)
  Run.say [.info s!"Read {m.size} types from {path.text} ({data.size} bytes)"]
  return m

/-- Read a module. -/
def read : Format → Path → Run Module
  | json => readDocument
  | image => readImage

/-- Write a document. -/
def writeDocument (m : Module) (path : Path) : Run Unit :=
  Run.replace (fun f => .write path (.files f))
    (·.writeText path (Document.ofModule m).render)

/-- Write a module into a copy of the image it came from. -/
def writeImage (m : Module) (path : Path) : Run Unit := do
  match m.image with
  | none => Run.fail (.write path .noImage)
  | some source => do
    let (data, emptied) ← Run.ofExcept (fun f => .write path (.image f))
      (Image.patchCounted m source)
    Run.say [.debug s!"Patched {m.size} types, {emptied} stripped bodies"]
    Run.replace (fun f => .write path (.files f)) (·.write path data)

/-- Write a module, in place of the file that is there. -/
def write : Format → Module → Path → Run Unit
  | json => writeDocument
  | image => writeImage

end Format

end PublicAssembly
