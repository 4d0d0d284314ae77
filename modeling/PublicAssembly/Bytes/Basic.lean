import PublicAssembly.Image.Fault

/-!
# Bytes

Checked access to the bytes of an image. A number of `width` bytes is stored with its least
significant byte first. Reading past the end of the data is a fault that names the place and the
number of bytes wanted there.

Writing keeps the size of the data and changes only the bytes written (`size_overwrite`,
`getElem?_overwrite_of_lt`, `getElem?_overwrite_of_le`), and the bytes of a number read back as
the number (`littleEndian_bytes`).
-/

namespace PublicAssembly

/-- The contents of a file. -/
abbrev Bytes := Array UInt8

namespace Bytes

open Image (Fault)

/-- The number that the bytes store, least significant byte first. -/
def littleEndian : List UInt8 → Nat
  | [] => 0
  | b :: rest => b.toNat + 256 * littleEndian rest

/-- The last `width` bytes of a number, least significant byte first. -/
def littleEndianBytes : Nat → Nat → List UInt8
  | 0, _ => []
  | width + 1, value => UInt8.ofNat value :: littleEndianBytes width (value / 256)

/-- A number of `width` bytes has `width` bytes. -/
@[simp]
theorem length_littleEndianBytes (width value : Nat) :
    (littleEndianBytes width value).length = width := by
  induction width generalizing value with
  | zero => rfl
  | succ width ih => simp [littleEndianBytes, ih]

/-- The last `width` bytes of a number store its last `8 * width` bits. -/
theorem littleEndian_bytes (width value : Nat) :
    littleEndian (littleEndianBytes width value) = value % 1 <<< (8 * width) := by
  induction width generalizing value with
  | zero => simp [littleEndianBytes, littleEndian, Nat.mod_one]
  | succ width ih =>
    have step : 1 <<< (8 * (width + 1)) = 256 * 1 <<< (8 * width) := by
      rw [Nat.one_shiftLeft, Nat.one_shiftLeft, Nat.mul_succ, Nat.pow_add, Nat.mul_comm]
    rw [littleEndianBytes, littleEndian, ih, step, Nat.mod_mul]
    rfl

/-- `size` bytes from `offset` on. -/
def slice (data : Bytes) (offset size : Nat) : Except Fault Bytes :=
  if offset + size ≤ data.size then .ok (data.extract offset (offset + size))
  else .error (.truncated offset size)

/-- The byte at `offset`. -/
def byte (data : Bytes) (offset : Nat) : Except Fault UInt8 :=
  match data[offset]? with
  | some b => .ok b
  | none => .error (.truncated offset 1)

/-- The number stored in `width` bytes at `offset`. -/
def number (data : Bytes) (offset width : Nat) : Except Fault Nat :=
  if offset + width ≤ data.size then
    .ok (littleEndian (data.extract offset (offset + width)).toList)
  else .error (.truncated offset width)

/-- Put the bytes at `offset` and after it; what would lie past the end is dropped. -/
def overwrite (data : Bytes) (offset : Nat) : List UInt8 → Bytes
  | [] => data
  | b :: rest => overwrite (data.setIfInBounds offset b) (offset + 1) rest

/-- Store a number in `width` bytes at `offset`. -/
def writeNumber (data : Bytes) (offset width value : Nat) : Except Fault Bytes :=
  if offset + width ≤ data.size then
    .ok (data.overwrite offset (littleEndianBytes width value))
  else .error (.truncated offset width)

/-- Overwriting keeps the size. -/
@[simp]
theorem size_overwrite (data : Bytes) (offset : Nat) (new : List UInt8) :
    (data.overwrite offset new).size = data.size := by
  induction new generalizing data offset with
  | nil => rfl
  | cons b rest ih => simp [overwrite, ih]

/-- Overwriting leaves the bytes before the offset. -/
theorem getElem?_overwrite_of_lt (data : Bytes) {offset i : Nat} (new : List UInt8)
    (h : i < offset) : (data.overwrite offset new)[i]? = data[i]? := by
  induction new generalizing data offset with
  | nil => rfl
  | cons b rest ih =>
    rw [overwrite, ih _ (by omega), Array.getElem?_setIfInBounds_ne (by omega)]

/-- Overwriting leaves the bytes past the new ones. -/
theorem getElem?_overwrite_of_le (data : Bytes) {offset i : Nat} (new : List UInt8)
    (h : offset + new.length ≤ i) : (data.overwrite offset new)[i]? = data[i]? := by
  induction new generalizing data offset with
  | nil => rfl
  | cons b rest ih =>
    rw [List.length_cons] at h
    rw [overwrite, ih _ (by omega), Array.getElem?_setIfInBounds_ne (by omega)]

end Bytes

end PublicAssembly
