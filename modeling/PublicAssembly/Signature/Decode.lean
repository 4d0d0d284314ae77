import PublicAssembly.Bytes.Cursor
import PublicAssembly.Signature.Basic

/-!
# Reading signatures

A method signature begins with a byte for the calling convention, the number of generic parameters
if one of its bits is set, and the number of parameters; the return type follows. Types nest at
most `SigType.maxDepth` deep. Counts that a signature gives are not trusted: each item takes at
least one byte, so a count that is too great runs into the end of the signature.
-/

namespace PublicAssembly

open Image (Fault)

/-- A reader of one item, which says where the next one begins. -/
abbrev Reader (α : Type) : Type := Cursor → Except Fault (α × Cursor)

namespace Reader

/-- Read `count` items one after another. -/
def times (read : Reader α) : Nat → Reader (List α)
  | 0, c => .ok ([], c)
  | count + 1, c => do
    let (item, c) ← read c
    let (rest, c) ← read.times count c
    return (item :: rest, c)

end Reader

namespace SigType

/-- The bit of the calling convention that announces generic parameters. -/
def genericBit : Nat := 4

/-- The greatest depth of a type; the return type itself has depth 1. -/
def maxDepth : Nat := 64

/-- Pass the header of a method signature, and give the number of parameters. -/
def readHeader : Reader Nat := fun c => do
  let (convention, c) ← c.next
  if convention.toNat.testBit genericBit then
    let (_, c) ← c.compressed
    c.compressed
  else
    c.compressed

/-- Pass the custom modifiers at the cursor, at most `limit` of them. -/
def skipModifiersUpTo : (limit : Nat) → Cursor → Except Fault Cursor
  | limit, c => do
    let element ← c.peek
    if element = 0x1F ∨ element = 0x20 then
      match limit with
      | 0 => return c
      | limit + 1 =>
        let (_, c) ← c.next
        let (_, c) ← c.compressed
        skipModifiersUpTo limit c
    else
      return c

/-- Pass the custom modifiers at the cursor. Each takes a byte and more, so there are no more of
them than bytes. -/
def skipModifiers (c : Cursor) : Except Fault Cursor :=
  skipModifiersUpTo c.rest.length c

/-- Read a reference to a row that names a type. -/
def readNamed : Reader SigType := fun c => do
  let (value, c) ← c.compressed
  match Metadata.CodedIndex.typeDefOrRef.decode value with
  | none => throw (.malformed (.badTypeReference value))
  | some (table, row) => return (named table row, c)

/-- Read a return type, whose own type is read by `inner`. -/
def readResultWith (inner : Reader SigType) : Reader SigType := fun c => do
  let c ← skipModifiers c
  let element ← c.peek
  if element = 0x01 then
    let (_, c) ← c.next
    return (void, c)
  else if element = 0x10 then
    let (_, c) ← c.next
    let (target, c) ← inner c
    return (byRef target, c)
  else
    inner c

/-- Read a parameter of a pointer to a method, whose own type is read by `inner`. A mark may stand
before it. -/
def readParameterWith (inner : Reader SigType) : Reader (Bool × SigType) := fun c => do
  let element ← c.peek
  let marked := element == 0x41
  let (_, c) ← if marked then c.next else .ok (element, c)
  let c ← skipModifiers c
  let element ← c.peek
  if element = 0x16 then
    let (_, c) ← c.next
    return ((marked, primitive .typedReference), c)
  else
    let (type, c) ← inner c
    return ((marked, type), c)

/-- Fail because the signature is nested too deep. -/
def tooDeep : Reader SigType := fun _ =>
  .error (.malformed .signatureTooDeep)

/-- Read a type that may nest `room - 1` levels deeper. -/
def readType : (room : Nat) → Reader SigType
  | 0, c => tooDeep c
  | room + 1, c => do
    let c ← skipModifiers c
    let (element, c) ← c.next
    match element with
    | 0x0F => do
      let (target, c) ← readType room c
      return (pointer target, c)
    | 0x10 => do
      let (target, c) ← readType room c
      return (byRef target, c)
    | 0x11 => readNamed c
    | 0x12 => readNamed c
    | 0x13 => do
      let (number, c) ← c.compressed
      return (typeVariable number, c)
    | 0x14 => do
      let (element, c) ← readType room c
      let (rank, c) ← c.compressed
      let (sizes, c) ← c.compressed
      let (_, c) ← Reader.times Cursor.compressed sizes c
      let (bounds, c) ← c.compressed
      let (_, c) ← Reader.times Cursor.compressed bounds c
      return (array element rank, c)
    | 0x15 => do
      let (type, c) ← readType room c
      let (count, c) ← c.compressed
      let (arguments, c) ← Reader.times (readType room) count c
      return (generic type arguments, c)
    | 0x1B => do
      let (count, c) ← readHeader c
      -- the type of the result is nested two levels deeper
      let inner := match room with
        | 0 => tooDeep
        | room + 1 => readType room
      let (result, c) ← readResultWith inner c
      let (parameters, c) ← Reader.times (readParameterWith (readType room)) count c
      return (method result parameters, c)
    | 0x1D => do
      let (element, c) ← readType room c
      return (vector element, c)
    | 0x1E => do
      let (number, c) ← c.compressed
      return (methodVariable number, c)
    | 0x45 => do
      let (type, c) ← readType room c
      return (pinned type, c)
    | _ =>
      match Primitive.ofElement? element with
      | some type => return (primitive type, c)
      | none => throw (.malformed (.unknownElement element.toNat))

/-- The return type of a method signature. Whatever stands behind it is not read. -/
def ofSignature (blob : List UInt8) : Except Fault SigType := do
  let (_, c) ← readHeader (Cursor.start blob)
  let (type, _) ← readResultWith (readType maxDepth) c
  return type

end SigType

/-- How the return type of a method signature is written. -/
def returnType (names : TypeNames) (blob : List UInt8) : Except Fault String := do
  let type ← SigType.ofSignature blob
  return type.render names

end PublicAssembly
