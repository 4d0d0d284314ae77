import PublicAssembly.Bytes.Basic
import PublicAssembly.Proofs.Reading
import PublicAssembly.Symbol.Visibility

/-!
# Data that agree on a span

Every access to the bytes of an image looks at one span of it, so data of the same size that agree
on the span give the same answer. Flag words are written back with other low bits; such a word
changes one byte of the data, its first.

## Main statements

* `number_congr`, `byte_congr`, `slice_congr`: an access depends on its span alone;
* `getElem?_overwrite`: what is at each place after an overwrite;
* `number_of_bytes`: the bytes of a number are read as the number;
* `getElem?_bytes_withLow`, `number_withLow`: a number with other low bits differs in its first
  byte.
-/

namespace PublicAssembly

/-- The byte whose low three bits are those of `bits` and whose others are those of `b`. -/
def setLow (bits : Nat) (b : UInt8) : UInt8 :=
  .ofNat (withLow b.toNat bits)

/-- Putting back the low bits changes nothing. -/
theorem setLow_self (b : UInt8) : setLow (b.toNat % 8) b = b := by
  rw [setLow, withLow_self, UInt8.ofNat_toNat]

/-- Other low bits make another byte. -/
theorem setLow_eq_self_iff {bits : Nat} (h : bits < 8) (b : UInt8) :
    setLow bits b = b ↔ b.toNat % 8 = bits := by
  constructor
  · intro heq
    have hlow := congrArg (fun c : UInt8 => c.toNat % 8) heq
    have hb := b.toNat_lt
    simp only [setLow, withLow, UInt8.toNat_ofNat'] at hlow
    omega
  · rintro rfl
    exact setLow_self b

namespace Bytes

open Reading

/-- The data have the same bytes from `offset` on, `size` of them. -/
def AgreeOn (a b : Bytes) (offset size : Nat) : Prop :=
  ∀ i, offset ≤ i → i < offset + size → a[i]? = b[i]?

section AgreeOn

variable {a b : Bytes} {offset size : Nat}

/-- Data that agree on a span agree on every part of it. -/
theorem AgreeOn.mono (h : AgreeOn a b offset size) {start length : Nat} (hstart : offset ≤ start)
    (hstop : start + length ≤ offset + size) : AgreeOn a b start length :=
  fun i hle hlt => h i (by omega) (by omega)

/-- Data that agree on a span have the same bytes there. -/
theorem AgreeOn.extract_eq (h : AgreeOn a b offset size) (hsize : a.size = b.size) :
    a.extract offset (offset + size) = b.extract offset (offset + size) := by
  apply Array.ext
  · rw [Array.size_extract, Array.size_extract, hsize]
  · intro i hi₁ hi₂
    rw [Array.size_extract] at hi₁
    have hbyte := h (offset + i) (by omega) (by omega)
    rw [Array.getElem_extract, Array.getElem_extract]
    rw [Array.getElem?_eq_getElem (by omega), Array.getElem?_eq_getElem (by omega)] at hbyte
    exact Option.some.inj hbyte

/-- Data with the same bytes on a span that lies in them agree there. -/
theorem AgreeOn.of_extract_eq (hsize : a.size = b.size) (hroom : offset + size ≤ a.size)
    (h : a.extract offset (offset + size) = b.extract offset (offset + size)) :
    AgreeOn a b offset size := by
  intro i hle hlt
  have hbyte := congrArg (fun bytes : Array UInt8 => bytes[i - offset]?) h
  have hplace : offset + (i - offset) = i := by omega
  simp only [Array.getElem?_extract] at hbyte
  rwa [if_pos (by omega), if_pos (by omega), hplace] at hbyte

/-- A number depends on its own bytes alone. -/
theorem number_congr (h : AgreeOn a b offset size) (hsize : a.size = b.size) :
    a.number offset size = b.number offset size := by
  rw [number, number, hsize, h.extract_eq hsize]

/-- Some bytes depend on themselves alone. -/
theorem slice_congr (h : AgreeOn a b offset size) (hsize : a.size = b.size) :
    a.slice offset size = b.slice offset size := by
  rw [slice, slice, hsize, h.extract_eq hsize]

/-- A byte depends on itself alone. -/
theorem byte_congr (h : AgreeOn a b offset 1) : a.byte offset = b.byte offset := by
  rw [byte, byte, h offset (Nat.le_refl _) (Nat.lt_succ_self _)]

end AgreeOn

/-! ### Numbers and their bytes -/

/-- What it takes to read a number. -/
theorem number_eq_ok_iff {data : Bytes} {offset width n : Nat} :
    data.number offset width = .ok n ↔
      offset + width ≤ data.size ∧
        littleEndian (data.extract offset (offset + width)).toList = n := by
  rw [number, ite_ok_error_eq_ok_iff]

/-- What it takes to read some bytes. -/
theorem slice_eq_ok_iff {data : Bytes} {offset size : Nat} {found : Bytes} :
    data.slice offset size = .ok found ↔
      offset + size ≤ data.size ∧ found = data.extract offset (offset + size) := by
  rw [slice, ite_ok_error_eq_ok_iff, eq_comm (a := found)]

/-- A number that lies in the data can be read. -/
theorem exists_number {data : Bytes} {offset width : Nat} (h : offset + width ≤ data.size) :
    ∃ n, data.number offset width = .ok n :=
  ⟨_, number_eq_ok_iff.2 ⟨h, rfl⟩⟩

/-- The bytes of the number that some bytes store are these bytes. -/
theorem bytes_littleEndian (bytes : List UInt8) :
    littleEndianBytes bytes.length (littleEndian bytes) = bytes := by
  induction bytes with
  | nil => rfl
  | cons b rest ih =>
    have hb := b.toNat_lt
    have hrest : (b.toNat + 256 * littleEndian rest) / 256 = littleEndian rest := by omega
    have hfirst : UInt8.ofNat (b.toNat + 256 * littleEndian rest) = b := by
      apply UInt8.toNat_inj.1
      rw [UInt8.toNat_ofNat']
      omega
    rw [List.length_cons, littleEndian, littleEndianBytes, hrest, ih, hfirst]

/-- A number is less than its width allows. -/
theorem littleEndian_lt (bytes : List UInt8) :
    littleEndian bytes < 1 <<< (8 * bytes.length) := by
  induction bytes with
  | nil => simp [littleEndian]
  | cons b rest ih =>
    have hb := b.toNat_lt
    have hstep : 1 <<< (8 * (rest.length + 1)) = 256 * 1 <<< (8 * rest.length) := by
      rw [Nat.one_shiftLeft, Nat.one_shiftLeft, Nat.mul_succ, Nat.pow_add, Nat.mul_comm]
    rw [List.length_cons, littleEndian, hstep]
    omega

/-- A number that was read is less than its width allows. -/
theorem number_lt {data : Bytes} {offset width n : Nat} (h : data.number offset width = .ok n) :
    n < 1 <<< (8 * width) := by
  obtain ⟨hroom, rfl⟩ := number_eq_ok_iff.1 h
  have hlength : (data.extract offset (offset + width)).toList.length = width := by
    rw [Array.length_toList, Array.size_extract]
    omega
  exact Nat.lt_of_lt_of_eq (littleEndian_lt _) (by rw [hlength])

/-- The bytes of a number that was read are those that it was read from. -/
theorem getElem?_bytes_number {data : Bytes} {offset width n : Nat}
    (h : data.number offset width = .ok n) {i : Nat} (hle : offset ≤ i)
    (hlt : i < offset + width) : (littleEndianBytes width n)[i - offset]? = data[i]? := by
  obtain ⟨hroom, rfl⟩ := number_eq_ok_iff.1 h
  have hlength : (data.extract offset (offset + width)).toList.length = width := by
    rw [Array.length_toList, Array.size_extract]
    omega
  have hbytes := bytes_littleEndian (data.extract offset (offset + width)).toList
  rw [hlength] at hbytes
  rw [hbytes, Array.getElem?_toList, Array.getElem?_extract, if_pos (by omega)]
  congr 1
  omega

/-- The low bits of a number that was read are those of its first byte. -/
theorem exists_byte_of_number {data : Bytes} {offset width n : Nat} (hwidth : 0 < width)
    (h : data.number offset width = .ok n) :
    ∃ b, data[offset]? = some b ∧ b.toNat % 8 = n % 8 := by
  obtain ⟨width, rfl⟩ := Nat.exists_eq_succ_of_ne_zero (Nat.ne_of_gt hwidth)
  have hbyte := getElem?_bytes_number h (Nat.le_refl _) (by omega)
  rw [littleEndianBytes, Nat.sub_self, List.getElem?_cons_zero] at hbyte
  refine ⟨_, hbyte.symm, ?_⟩
  rw [UInt8.toNat_ofNat']
  omega

/-- Data that hold the bytes of a number at a place store the number there. -/
theorem number_of_bytes (value : Nat) {data : Bytes} {offset width : Nat}
    (hroom : offset + width ≤ data.size)
    (h : ∀ i, offset ≤ i → i < offset + width →
      data[i]? = (littleEndianBytes width value)[i - offset]?) :
    data.number offset width = .ok (value % 1 <<< (8 * width)) := by
  -- the bytes in the data are those of the number, one by one
  have hbytes : (data.extract offset (offset + width)).toList =
      littleEndianBytes width value := by
    apply List.ext_getElem
    · rw [Array.length_toList, Array.size_extract, length_littleEndianBytes]
      omega
    · intro k hk₁ hk₂
      rw [length_littleEndianBytes] at hk₂
      have hbyte := h (offset + k) (by omega) (by omega)
      rw [Nat.add_sub_cancel_left, Array.getElem?_eq_getElem (by omega),
        List.getElem?_eq_getElem (by simpa using hk₂)] at hbyte
      rw [Array.getElem_toList, Array.getElem_extract]
      exact Option.some.inj hbyte
  rw [number_eq_ok_iff, hbytes]
  exact ⟨hroom, littleEndian_bytes width value⟩

/-- A number with other low bits has another first byte, and otherwise the same bytes. -/
theorem bytes_withLow (width n bits : Nat) :
    littleEndianBytes (width + 1) (withLow n bits) =
      setLow bits (.ofNat n) :: littleEndianBytes width (n / 256) := by
  have hrest : withLow n bits / 256 = n / 256 := by
    rw [withLow]
    omega
  have hfirst : UInt8.ofNat (withLow n bits) = setLow bits (.ofNat n) := by
    apply UInt8.toNat_inj.1
    simp only [setLow, withLow, UInt8.toNat_ofNat']
    omega
  rw [littleEndianBytes, hrest, hfirst]

/-- A number that was read and gets other low bits differs from what it was read from in the low
bits of its first byte. -/
theorem getElem?_bytes_withLow {data : Bytes} {offset width n : Nat} (hwidth : 0 < width)
    (h : data.number offset width = .ok n) (bits : Nat) {i : Nat} (hle : offset ≤ i)
    (hlt : i < offset + width) :
    (littleEndianBytes width (withLow n bits))[i - offset]? =
      if i = offset then data[i]?.map (setLow bits) else data[i]? := by
  obtain ⟨width, rfl⟩ := Nat.exists_eq_succ_of_ne_zero (Nat.ne_of_gt hwidth)
  have hbyte := getElem?_bytes_number h hle hlt
  rw [bytes_withLow]
  rw [littleEndianBytes] at hbyte
  -- the low bits are in the first byte, since the lowest byte comes first
  by_cases hi : i = offset
  · subst hi
    rw [Nat.sub_self, List.getElem?_cons_zero] at hbyte ⊢
    rw [if_pos rfl, ← hbyte, Option.map_some]
  · obtain ⟨k, hk⟩ := Nat.exists_eq_succ_of_ne_zero (n := i - offset) (by omega)
    rw [hk, List.getElem?_cons_succ] at hbyte ⊢
    rw [if_neg hi, hbyte]

/-- Other low bits keep a number within its width. -/
theorem withLow_lt {width n : Nat} (hwidth : 0 < width) (h : n < 1 <<< (8 * width)) (bits : Nat) :
    withLow n bits < 1 <<< (8 * width) := by
  have hstep : 1 <<< (8 * width) = 8 * 1 <<< (8 * width - 3) := by
    rw [Nat.one_shiftLeft, Nat.one_shiftLeft, show (8 : Nat) = 2 ^ 3 from rfl, ← Nat.pow_add]
    congr 1
    omega
  rw [withLow]
  omega

/-- Data whose first byte of a number has other low bits, and which are otherwise the same there,
store the number with these low bits. -/
theorem number_withLow {data out : Bytes} {offset width n bits : Nat} (hwidth : 0 < width)
    (h : data.number offset width = .ok n) (hsize : data.size = out.size)
    (hfirst : out[offset]? = data[offset]?.map (setLow bits))
    (hrest : ∀ i, offset < i → i < offset + width → out[i]? = data[i]?) :
    out.number offset width = .ok (withLow n bits) := by
  have hroom := (number_eq_ok_iff.1 h).1
  rw [number_of_bytes (withLow n bits) (by omega) fun i hle hlt => ?_,
    Nat.mod_eq_of_lt (withLow_lt hwidth (number_lt h) bits)]
  rw [getElem?_bytes_withLow hwidth h bits hle hlt]
  by_cases hi : i = offset
  · rw [if_pos hi, hi, hfirst]
  · rw [if_neg hi, hrest i (by omega) hlt]

/-! ### Overwriting -/

/-- What is at a place after an overwrite: a new byte where one was put, the old one elsewhere. -/
theorem getElem?_overwrite (data : Bytes) (offset : Nat) (new : List UInt8) {i : Nat}
    (hi : i < data.size) :
    (data.overwrite offset new)[i]? =
      if offset ≤ i ∧ i < offset + new.length then new[i - offset]? else data[i]? := by
  by_cases hcovered : offset ≤ i ∧ i < offset + new.length
  · rw [if_pos hcovered]
    -- the first of the new bytes is put at the offset, and the others behind it
    induction new generalizing data offset with
    | nil => simp at hcovered; omega
    | cons b rest ih =>
      obtain ⟨hle, hlt⟩ := hcovered
      rw [List.length_cons] at hlt
      rw [overwrite]
      by_cases hfirst : i = offset
      · subst hfirst
        rw [getElem?_overwrite_of_lt _ _ (Nat.lt_succ_self _), Nat.sub_self,
          List.getElem?_cons_zero, Array.getElem?_setIfInBounds_self_of_lt hi]
      · have hnext : i - offset = i - (offset + 1) + 1 := by omega
        rw [ih _ _ (by rwa [Array.size_setIfInBounds]) (by omega), hnext,
          List.getElem?_cons_succ]
  · rw [if_neg hcovered]
    rcases Nat.lt_or_ge i offset with hlt | hge
    · exact getElem?_overwrite_of_lt data new hlt
    · exact getElem?_overwrite_of_le data new (by omega)

end Bytes

end PublicAssembly
