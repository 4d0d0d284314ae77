import PublicAssembly.Bytes.Basic
import PublicAssembly.Text.Basic

/-!
# SHA-256

The digest of a file, by which a report names the exact bytes that were written. What is said of runs
holds for every function of the bytes in its place; that two files with one digest are the same is
assumed nowhere.
-/

namespace PublicAssembly.Bytes

/-- The constants of the sixty-four rounds. -/
def roundConstants : Array UInt32 := #[
  0x428a2f98, 0x71374491, 0xb5c0fbcf, 0xe9b5dba5, 0x3956c25b, 0x59f111f1, 0x923f82a4, 0xab1c5ed5,
  0xd807aa98, 0x12835b01, 0x243185be, 0x550c7dc3, 0x72be5d74, 0x80deb1fe, 0x9bdc06a7, 0xc19bf174,
  0xe49b69c1, 0xefbe4786, 0x0fc19dc6, 0x240ca1cc, 0x2de92c6f, 0x4a7484aa, 0x5cb0a9dc, 0x76f988da,
  0x983e5152, 0xa831c66d, 0xb00327c8, 0xbf597fc7, 0xc6e00bf3, 0xd5a79147, 0x06ca6351, 0x14292967,
  0x27b70a85, 0x2e1b2138, 0x4d2c6dfc, 0x53380d13, 0x650a7354, 0x766a0abb, 0x81c2c92e, 0x92722c85,
  0xa2bfe8a1, 0xa81a664b, 0xc24b8b70, 0xc76c51a3, 0xd192e819, 0xd6990624, 0xf40e3585, 0x106aa070,
  0x19a4c116, 0x1e376c08, 0x2748774c, 0x34b0bcb5, 0x391c0cb3, 0x4ed8aa4a, 0x5b9cca4f, 0x682e6ff3,
  0x748f82ee, 0x78a5636f, 0x84c87814, 0x8cc70208, 0x90befffa, 0xa4506ceb, 0xbef9a3f7, 0xc67178f2]

/-- The eight words of the running digest. -/
structure DigestState where
  a : UInt32
  b : UInt32
  c : UInt32
  d : UInt32
  e : UInt32
  f : UInt32
  g : UInt32
  h : UInt32

namespace DigestState

/-- The digest before the first block. -/
def initial : DigestState :=
  ⟨0x6a09e667, 0xbb67ae85, 0x3c6ef372, 0xa54ff53a, 0x510e527f, 0x9b05688c, 0x1f83d9ab, 0x5be0cd19⟩

/-- The word turned to the right by `n` bits, for `n` between 1 and 31. -/
def rotateRight (x n : UInt32) : UInt32 :=
  (x >>> n) ||| (x <<< (32 - n))

/-- One round with its constant and its word of the message. -/
def round (s : DigestState) (k w : UInt32) : DigestState :=
  let sum₁ := rotateRight s.e 6 ^^^ rotateRight s.e 11 ^^^ rotateRight s.e 25
  let choice := (s.e &&& s.f) ^^^ (~~~s.e &&& s.g)
  let t₁ := s.h + sum₁ + choice + k + w
  let sum₀ := rotateRight s.a 2 ^^^ rotateRight s.a 13 ^^^ rotateRight s.a 22
  let majority := (s.a &&& s.b) ^^^ (s.a &&& s.c) ^^^ (s.b &&& s.c)
  ⟨t₁ + (sum₀ + majority), s.a, s.b, s.c, s.d + t₁, s.e, s.f, s.g⟩

/-- The words added one by one. -/
def add (s t : DigestState) : DigestState :=
  ⟨s.a + t.a, s.b + t.b, s.c + t.c, s.d + t.d, s.e + t.e, s.f + t.f, s.g + t.g, s.h + t.h⟩

/-- The words in order. -/
def words (s : DigestState) : List UInt32 :=
  [s.a, s.b, s.c, s.d, s.e, s.f, s.g, s.h]

end DigestState

/-- The message, one bit, zeros up to the length field, and the length in bits. -/
def padded (data : Bytes) : Bytes :=
  let zeros := (119 - data.size % 64) % 64
  data ++ #[0x80] ++ Array.replicate zeros 0 ++
    (littleEndianBytes 8 (data.size * 8)).reverse.toArray

/-- The word whose four bytes start at `offset`, most significant byte first. -/
def bigEndianWord (data : Bytes) (offset : Nat) : UInt32 :=
  (data.getD offset 0).toUInt32 <<< 24 ||| (data.getD (offset + 1) 0).toUInt32 <<< 16 |||
    (data.getD (offset + 2) 0).toUInt32 <<< 8 ||| (data.getD (offset + 3) 0).toUInt32

/-- The sixty-four words that a block of sixty-four bytes gives to the rounds. -/
def messageSchedule (data : Bytes) (offset : Nat) : Array UInt32 :=
  let first := (Array.range 16).map fun i => bigEndianWord data (offset + 4 * i)
  (List.range 48).foldl (fun w i =>
    let x := w.getD (i + 1) 0
    let y := w.getD (i + 14) 0
    let s₀ := DigestState.rotateRight x 7 ^^^ DigestState.rotateRight x 18 ^^^ (x >>> 3)
    let s₁ := DigestState.rotateRight y 17 ^^^ DigestState.rotateRight y 19 ^^^ (y >>> 10)
    w.push (w.getD i 0 + s₀ + w.getD (i + 9) 0 + s₁)) first

/-- The digest after one more block. -/
def digestBlock (data : Bytes) (s : DigestState) (offset : Nat) : DigestState :=
  let w := messageSchedule data offset
  s.add ((List.range 64).foldl (fun t i => t.round (roundConstants.getD i 0) (w.getD i 0)) s)

/-- The SHA-256 digest in hexadecimal. -/
def sha256 (data : Bytes) : String :=
  let message := padded data
  let final := (List.range (message.size / 64)).foldl
    (fun s i => digestBlock message s (64 * i)) DigestState.initial
  String.ofList (final.words.flatMap fun w => Text.hexDigits 8 w.toNat)

end PublicAssembly.Bytes
