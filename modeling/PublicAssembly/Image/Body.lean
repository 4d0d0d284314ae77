import PublicAssembly.Bytes.Basic

/-!
# Method bodies

A method body begins with a header of one of two formats. A tiny header is one byte that also holds
the size of the code; a fat header has fields of its own for its size and for that of the code.
-/

namespace PublicAssembly.Image

/-- Where a method body and its code lie in the file. -/
structure Body where
  /-- The offset of the header. -/
  headerOffset : Nat
  /-- The number of bytes of the header. -/
  headerSize : Nat
  /-- The number of bytes of the code. -/
  codeSize : Nat
  deriving DecidableEq, Repr

namespace Body

/-- The header of a tiny body without code. -/
def emptyHeader : UInt8 := 0x02

/-- The least number of bytes of a fat header. -/
def minFatHeader : Nat := 12

/-- The offset of the code. -/
def codeOffset (body : Body) : Nat :=
  body.headerOffset + body.headerSize

/-- The bytes of the code. -/
def code (body : Body) (data : Bytes) : Except Fault Bytes :=
  data.slice body.codeOffset body.codeSize

/-- Read the header at `offset`; the code itself need not lie in the data. -/
def readHeader (data : Bytes) (offset : Nat) : Except Fault Body := do
  let first ← data.byte offset
  let format := first.toNat % 4
  -- a small header is one byte, with the size of the code above its two lowest bits; a large one
  -- has its own size in words above twelve bits of flags
  if format = 2 then
    return ⟨offset, 1, first.toNat / 4⟩
  else if format = 3 then
    let flags ← data.number offset 2
    let headerSize := flags / 4096 * 4
    if headerSize < minFatHeader then
      throw (.malformed (.fatHeaderTooSmall offset headerSize))
    let codeSize ← data.number (offset + 4) 4
    return ⟨offset, headerSize, codeSize⟩
  else
    throw (.malformed (.unknownBodyFormat first.toNat offset))

/-- Read the body at `offset`, whose code must lie in the data. -/
def read (data : Bytes) (offset : Nat) : Except Fault (Body × Bytes) := do
  let body ← readHeader data offset
  let code ← body.code data
  return (body, code)

end Body

end PublicAssembly.Image
