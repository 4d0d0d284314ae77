import PublicAssembly.Bytes.Basic

/-!
# Cursors and compressed integers

A cursor reads bytes one after another and knows how many it has read, so that a fault can name
its place. A compressed integer is stored in one, two or four bytes, most significant byte first;
the upper bits of the first byte announce how many there are.
-/

namespace PublicAssembly

open Image (Fault)

/-- A place in a sequence of bytes. -/
structure Cursor where
  /-- The number of bytes before the place. -/
  position : Nat
  /-- The bytes from the place on. -/
  rest : List UInt8
  deriving DecidableEq, Repr

namespace Cursor

/-- The cursor before the first of the bytes. -/
def start (bytes : List UInt8) : Cursor :=
  ⟨0, bytes⟩

/-- Read one byte. -/
def next (c : Cursor) : Except Fault (UInt8 × Cursor) :=
  match c.rest with
  | [] => .error (.truncated c.position 1)
  | b :: rest => .ok (b, ⟨c.position + 1, rest⟩)

/-- The byte that `next` would read. -/
def peek (c : Cursor) : Except Fault UInt8 :=
  match c.rest with
  | [] => .error (.truncated c.position 1)
  | b :: _ => .ok b

/-- Read a compressed integer. -/
def compressed (c : Cursor) : Except Fault (Nat × Cursor) :=
  match c.rest with
  | [] => .error (.truncated c.position 1)
  | lead :: rest =>
    -- the upper bits of the first byte say how many bytes there are: one, two or four
    if lead.toNat < 0x80 then .ok (lead.toNat, ⟨c.position + 1, rest⟩)
    else if lead.toNat < 0xC0 then
      match rest with
      | b :: rest => .ok ((lead.toNat - 0x80) * 256 + b.toNat, ⟨c.position + 2, rest⟩)
      | [] => .error (.truncated (c.position + 1) 1)
    else if lead.toNat < 0xE0 then
      match rest with
      | b₁ :: b₂ :: b₃ :: rest =>
        .ok ((lead.toNat - 0xC0) * 16777216 + b₁.toNat * 65536 + b₂.toNat * 256 + b₃.toNat,
          ⟨c.position + 4, rest⟩)
      | _ => .error (.truncated (c.position + 1) 3)
    else .error (.malformed (.badLeadByte lead.toNat))

/-- Read a compressed integer and say where the cursor stands afterwards: a fault leaves it behind
the first byte, if there is one. -/
def compressedStep (c : Cursor) : Except Fault Nat × Cursor :=
  match c.compressed with
  | .ok (n, d) => (.ok n, d)
  | .error fault => (.error fault, ⟨c.position + min 1 c.rest.length, c.rest.drop 1⟩)

/-- Read one byte and say where the cursor stands afterwards: a fault leaves it where it was. -/
def nextStep (c : Cursor) : Except Fault UInt8 × Cursor :=
  match c.next with
  | .ok (b, d) => (.ok b, d)
  | .error fault => (.error fault, c)

/-- Reading a byte leaves one byte less. -/
theorem length_rest_next {c d : Cursor} {b : UInt8} (h : c.next = .ok (b, d)) :
    d.rest.length + 1 = c.rest.length := by
  unfold next at h
  split at h <;> simp_all
  obtain ⟨rfl, rfl⟩ := h
  simp

/-- Reading a compressed integer takes at least one byte. -/
theorem length_rest_compressed {c d : Cursor} {n : Nat} (h : c.compressed = .ok (n, d)) :
    d.rest.length < c.rest.length := by
  unfold compressed at h
  grind

end Cursor

/-- A stored form of a compressed integer, by the number of bytes it takes. -/
inductive CompressedForm where
  /-- One byte, for numbers below `2 ^ 7`. -/
  | one
  /-- Two bytes, for numbers below `2 ^ 14`. -/
  | two
  /-- Four bytes, for numbers below `2 ^ 29`. -/
  | four
  deriving DecidableEq, Repr

namespace CompressedForm

/-- The number of bytes of the form. -/
def length : CompressedForm → Nat
  | one => 1
  | two => 2
  | four => 4

/-- The least number that the form is too small for. -/
def bound : CompressedForm → Nat
  | one => 0x80
  | two => 0x4000
  | four => 0x20000000

/-- The bytes that store `n` in the form, for `n` below its bound. -/
def encode (form : CompressedForm) (n : Nat) : List UInt8 :=
  match form with
  | one => [.ofNat n]
  | two => [.ofNat (0x80 + n / 256), .ofNat n]
  | four => [.ofNat (0xC0 + n / 16777216), .ofNat (n / 65536), .ofNat (n / 256), .ofNat n]

/-- A form has as many bytes as its length says. -/
@[simp]
theorem length_encode (form : CompressedForm) (n : Nat) :
    (form.encode n).length = form.length := by
  cases form <;> rfl

end CompressedForm

end PublicAssembly
