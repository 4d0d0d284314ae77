import PublicAssembly.Bytes.Cursor
import PublicAssembly.Proofs.Machine.Basic

/-!
# Bytes on a machine

Reading bytes looks whether they lie in the data before it takes them, and an offset whose sum with
the length does not fit into a word lies behind every end. So nothing that is read here stops a
machine, whatever the offset is.

A cursor on a machine is a place in the data. It stands for the cursor that holds the bytes from the
place on (`plainAt`), and a reader on a machine agrees with a reader on such cursors (`Agrees`).
-/

namespace PublicAssembly.Machine

open Image (Fault)

/-! ### Reading and writing at an offset -/

/-- `size` bytes from `offset` on. -/
def slice (data : Bytes) (offset size : Nat) : Checked Bytes :=
  match sum? 64 offset size with
  | some stop =>
    if offset ≤ stop ∧ stop ≤ data.size then .ok (data.extract offset stop)
    else .error (.fault (.truncated offset size))
  | none => .error (.fault (.truncated offset size))

/-- The byte at `offset`. -/
def byte (data : Bytes) (offset : Nat) : Checked UInt8 := do
  let found ← slice data offset 1
  index found 0

/-- The number stored in `width` bytes at `offset`. -/
def number (data : Bytes) (offset width : Nat) : Checked Nat := do
  let found ← slice data offset width
  let bytes ← (List.range width).mapM (index found)
  return Bytes.littleEndian bytes

/-- Put bytes in the place of others from `offset` up to `stop`, of which there must be as many. -/
def copyInto (data : Bytes) (offset stop : Nat) (bytes : List UInt8) : Checked Bytes :=
  if offset ≤ stop ∧ stop ≤ data.size ∧ stop - offset = bytes.length then
    .ok (data.overwrite offset bytes)
  else .error (.trap .index)

/-- Put bytes at `offset` and behind it. -/
def write (data : Bytes) (offset : Nat) (bytes : List UInt8) : Checked Bytes :=
  match sum? 64 offset bytes.length with
  | some stop =>
    if stop ≤ data.size then copyInto data offset stop bytes
    else .error (.fault (.truncated offset bytes.length))
  | none => .error (.fault (.truncated offset bytes.length))

section Offsets

variable {data : Bytes}

theorem slice_eq (hdata : data.size < 2 ^ 32) (offset size : Nat) :
    slice data offset size = lift (data.slice offset size) := by
  rw [slice, Bytes.slice]
  by_cases hsum : offset + size < 2 ^ 64
  · rw [sum?_eq hsum]
    by_cases hroom : offset + size ≤ data.size
    · simp [hroom]
    · simp [hroom]
  · rw [sum?_eq_none (Nat.le_of_not_lt hsum), if_neg (by omega)]
    rfl

theorem byte_eq (hdata : data.size < 2 ^ 32) (offset : Nat) :
    byte data offset = lift (data.byte offset) := by
  rw [byte, slice_eq hdata, Bytes.slice, Bytes.byte]
  by_cases hroom : offset + 1 ≤ data.size
  · have hlt : offset < data.size := hroom
    simp [hroom, hlt, index]
  · have hle : data.size ≤ offset := by omega
    simp [hroom, hle]

theorem number_eq (hdata : data.size < 2 ^ 32) (offset width : Nat) :
    number data offset width = lift (data.number offset width) := by
  rw [number, slice_eq hdata, Bytes.slice, Bytes.number]
  by_cases hroom : offset + width ≤ data.size
  · have hsize : (data.extract offset (offset + width)).size = width := by
      rw [Array.size_extract]
      omega
    -- all bytes of the slice are taken by their indexes
    have hbytes := mapM_index (data.extract offset (offset + width))
    rw [hsize] at hbytes
    rw [if_pos hroom, if_pos hroom, lift_ok, Reading.ok_bind, hbytes]
    rfl
  · rw [if_neg hroom, if_neg hroom]
    rfl

theorem write_eq (hdata : data.size < 2 ^ 32) {offset : Nat} {bytes : List UInt8}
    (hroom : offset + bytes.length ≤ data.size) :
    write data offset bytes = .ok (data.overwrite offset bytes) := by
  rw [write, sum?_eq (by omega)]
  dsimp only
  rw [if_pos hroom, copyInto, if_pos ⟨by omega, hroom, by omega⟩]

end Offsets

/-! ### Cursors -/

/-- A place in some data. -/
structure Cursor where
  /-- The data. -/
  data : Bytes
  /-- The number of bytes before the place. -/
  position : Nat

/-- A reader of one item, which says where the next one begins. -/
abbrev Reader (α : Type) : Type :=
  Cursor → Checked (α × Cursor)

namespace Cursor

/-- The byte at the cursor. -/
def peek (c : Cursor) : Checked UInt8 :=
  byte c.data c.position

/-- Read one byte. -/
def next : Reader UInt8 := fun c => do
  let b ← byte c.data c.position
  let position ← add 64 c.position 1
  return (b, { c with position })

/-- Read a compressed integer. -/
def compressed : Reader Nat := fun c => do
  let (lead, c) ← c.next
  let first := lead.toNat
  if first &&& 0x80 = 0 then return (first, c)
  else if first &&& 0xC0 = 0x80 then
    let (second, c) ← c.next
    let high ← shiftLeft 32 (first &&& 0x3F) 8
    return (high ||| second.toNat, c)
  else if first &&& 0xE0 = 0xC0 then
    -- three bytes at once, so that the fault is the same whichever of them is missing
    let rest ← slice c.data c.position 3
    let position ← add 64 c.position 3
    let high ← shiftLeft 32 (first &&& 0x1F) 24
    let b₁ ← index rest 0
    let middle ← shiftLeft 32 b₁.toNat 16
    let b₂ ← index rest 1
    let low ← shiftLeft 32 b₂.toNat 8
    let b₃ ← index rest 2
    return (high ||| middle ||| low ||| b₃.toNat, { c with position })
  else .error (.fault (.malformed (.badLeadByte first)))

end Cursor

/-- The cursor that holds the bytes of the data from a position on. -/
def plainAt (data : Bytes) (position : Nat) : PublicAssembly.Cursor :=
  ⟨position, data.toList.drop position⟩

variable {data : Bytes} {α β γ δ : Type}

/-- A reading on a machine gives what a reading on numbers gives, with the item rewritten and both
cursors at the same place of the data. -/
structure Agrees (data : Bytes) (edit : β → α) (checked : Checked (α × Cursor))
    (read : Except Fault (β × PublicAssembly.Cursor)) : Prop where
  /-- Both give the same item and leave the cursor at the same place, or stop with one fault. -/
  eq_lift : checked = lift (read.map fun found => (edit found.1, ⟨data, found.2.position⟩))
  /-- The cursor is left at a place of the data. -/
  plain : ∀ found, read = .ok found →
    found.2 = plainAt data found.2.position ∧ found.2.position ≤ data.size

namespace Agrees

theorem fault {edit : β → α} (fault : Fault) :
    Agrees data edit (.error (.fault fault)) (.error fault) :=
  ⟨rfl, nofun⟩

/-- An item that is given without reading. -/
theorem ok {edit : β → α} {position : Nat} {item : β} {text : α} (hle : position ≤ data.size)
    (h : edit item = text) :
    Agrees data edit (.ok (text, ⟨data, position⟩)) (.ok (item, plainAt data position)) := by
  subst h
  refine ⟨rfl, fun found h => ?_⟩
  cases h
  exact ⟨rfl, hle⟩

/-- Readings that go two ways agree if they do on each. -/
theorem ite {edit : β → α} {p : Prop} [Decidable p] {checked₁ checked₂ : Checked (α × Cursor)}
    {read₁ read₂ : Except Fault (β × PublicAssembly.Cursor)}
    (h₁ : p → Agrees data edit checked₁ read₁) (h₂ : ¬p → Agrees data edit checked₂ read₂) :
    Agrees data edit (if p then checked₁ else checked₂) (if p then read₁ else read₂) := by
  by_cases hp : p
  · rw [if_pos hp, if_pos hp]
    exact h₁ hp
  · rw [if_neg hp, if_neg hp]
    exact h₂ hp

/-- A reading behind a computation that reads nothing at the cursor. -/
theorem lift_bind {edit : β → α} {found : Except Fault γ} {next : γ → Checked (α × Cursor)}
    {follow : γ → Except Fault (β × PublicAssembly.Cursor)}
    (h : ∀ c, found = .ok c → Agrees data edit (next c) (follow c)) :
    Agrees data edit (lift found >>= next) (found >>= follow) := by
  cases found with
  | error cause => exact fault cause
  | ok c => exact h c rfl

/-- Readings in two steps agree if both steps do, the second one from where the first one ends. -/
theorem bind {edit : β → α} {rewrite : δ → γ} {checked : Checked (α × Cursor)}
    {read : Except Fault (β × PublicAssembly.Cursor)} {next : α × Cursor → Checked (γ × Cursor)}
    {follow : β × PublicAssembly.Cursor → Except Fault (δ × PublicAssembly.Cursor)}
    (h : Agrees data edit checked read)
    (hnext : ∀ item position, position ≤ data.size → read = .ok (item, plainAt data position) →
      Agrees data rewrite (next (edit item, ⟨data, position⟩))
        (follow (item, plainAt data position))) :
    Agrees data rewrite (checked >>= next) (read >>= follow) := by
  obtain ⟨heq, hplain⟩ := h
  subst heq
  cases read with
  | error cause => exact fault cause
  | ok found =>
    obtain ⟨item, c⟩ := found
    obtain ⟨hc, hle⟩ := hplain _ rfl
    dsimp only at hc
    rw [hc]
    exact hnext item c.position hle (by rw [← hc])

end Agrees

/-! ### Reading at a cursor -/

/-- Before the end of the data there is a byte, and the bytes behind it. -/
theorem drop_toList {position : Nat} (h : position < data.size) :
    data.toList.drop position = data[position] :: data.toList.drop (position + 1) := by
  have hlt : position < data.toList.length := by simpa using h
  simpa using List.drop_eq_getElem_cons hlt

theorem rest_plainAt {position : Nat} (h : position < data.size) :
    (plainAt data position).rest = data[position] :: (plainAt data (position + 1)).rest :=
  drop_toList h

/-- Nothing is left at the end of the data. -/
theorem rest_plainAt_of_le {position : Nat} (h : data.size ≤ position) :
    (plainAt data position).rest = [] := by
  rw [plainAt, List.drop_eq_nil_iff]
  simpa using h

theorem length_rest_plainAt (position : Nat) :
    (plainAt data position).rest.length = data.size - position := by
  rw [plainAt, List.length_drop, Array.length_toList]

theorem peek_eq (hdata : data.size < 2 ^ 32) (position : Nat) :
    Cursor.peek ⟨data, position⟩ = lift (plainAt data position).peek := by
  rw [Cursor.peek, byte_eq hdata, Bytes.byte, PublicAssembly.Cursor.peek]
  by_cases h : position < data.size
  · rw [rest_plainAt h, Array.getElem?_eq_getElem h]
  · rw [rest_plainAt_of_le (Nat.le_of_not_lt h), Array.getElem?_eq_none (Nat.le_of_not_lt h)]
    rfl

/-- Reading one byte before the end of the data. -/
theorem next_of_lt (hdata : data.size < 2 ^ 32) {position : Nat} (h : position < data.size) :
    Cursor.next ⟨data, position⟩ = .ok (data[position], ⟨data, position + 1⟩) := by
  have hsum : position + 1 < 2 ^ 64 := by omega
  rw [Cursor.next, byte_eq hdata, Bytes.byte]
  dsimp only
  rw [Array.getElem?_eq_getElem h, add_eq hsum]
  rfl

/-- Reading one byte at the end of the data. -/
theorem next_of_le (hdata : data.size < 2 ^ 32) {position : Nat} (h : data.size ≤ position) :
    Cursor.next ⟨data, position⟩ = .error (.fault (.truncated position 1)) := by
  rw [Cursor.next, byte_eq hdata, Bytes.byte]
  dsimp only
  rw [Array.getElem?_eq_none h]
  rfl

theorem agrees_next (hdata : data.size < 2 ^ 32) (position : Nat) :
    Agrees data id (Cursor.next ⟨data, position⟩) (plainAt data position).next := by
  rw [PublicAssembly.Cursor.next]
  by_cases h : position < data.size
  · rw [rest_plainAt h, next_of_lt hdata h]
    exact Agrees.ok h rfl
  · have hle := Nat.le_of_not_lt h
    rw [rest_plainAt_of_le hle, next_of_le hdata hle]
    exact Agrees.fault _

/-! ### Compressed integers -/

/-- A word whose low bits are zero takes up a smaller one there. -/
theorem or_eq_add {a b n : Nat} (ha : 2 ^ n ∣ a) (hb : b < 2 ^ n) : a ||| b = a + b := by
  obtain ⟨c, rfl⟩ := ha
  rw [Nat.mul_comm, ← Nat.shiftLeft_eq]
  exact (Nat.shiftLeft_add_eq_or_of_lt hb c).symm

/-- What the upper bits of the first byte of a compressed integer announce. -/
theorem lead_bits (b : UInt8) :
    (b.toNat &&& 0x80 = 0 ↔ b.toNat < 0x80) ∧
    (0x80 ≤ b.toNat → (b.toNat &&& 0xC0 = 0x80 ↔ b.toNat < 0xC0)) ∧
    (0xC0 ≤ b.toNat → (b.toNat &&& 0xE0 = 0xC0 ↔ b.toNat < 0xE0)) ∧
    (0x80 ≤ b.toNat → b.toNat < 0xC0 → b.toNat &&& 0x3F = b.toNat - 0x80) ∧
    (0xC0 ≤ b.toNat → b.toNat < 0xE0 → b.toNat &&& 0x1F = b.toNat - 0xC0) := by
  have hall : ∀ n : Fin 256,
      (n.val &&& 0x80 = 0 ↔ n.val < 0x80) ∧
      (0x80 ≤ n.val → (n.val &&& 0xC0 = 0x80 ↔ n.val < 0xC0)) ∧
      (0xC0 ≤ n.val → (n.val &&& 0xE0 = 0xC0 ↔ n.val < 0xE0)) ∧
      (0x80 ≤ n.val → n.val < 0xC0 → n.val &&& 0x3F = n.val - 0x80) ∧
      (0xC0 ≤ n.val → n.val < 0xE0 → n.val &&& 0x1F = n.val - 0xC0) := by decide +kernel
  exact hall ⟨b.toNat, b.toNat_lt⟩

/-- The bytes of a compressed integer of two bytes. -/
theorem or_second {high : Nat} (b : UInt8) : high <<< 8 ||| b.toNat = high * 256 + b.toNat := by
  rw [or_eq_add (n := 8) (by rw [Nat.shiftLeft_eq]; exact Nat.dvd_mul_left _ _) b.toNat_lt,
    Nat.shiftLeft_eq]

/-- The bytes of a compressed integer of four bytes. -/
theorem or_third {high : Nat} (b₁ b₂ b₃ : UInt8) :
    high <<< 24 ||| b₁.toNat <<< 16 ||| b₂.toNat <<< 8 ||| b₃.toNat =
      high * 16777216 + b₁.toNat * 65536 + b₂.toNat * 256 + b₃.toNat := by
  have h₁ := b₁.toNat_lt
  have h₂ := b₂.toNat_lt
  have h₃ := b₃.toNat_lt
  simp only [Nat.shiftLeft_eq]
  rw [or_eq_add (a := high * 2 ^ 24) (n := 24) (by omega) (by omega),
    or_eq_add (b := b₂.toNat * 2 ^ 8) (n := 16) (by omega) (by omega),
    or_eq_add (n := 8) (by omega) (by omega)]

/-- What stands behind the first of two bytes. -/
theorem agrees_second (hdata : data.size < 2 ^ 32) {high : Nat} (hhigh : high < 64)
    (position : Nat) :
    Agrees data id (do
      let (second, c) ← Cursor.next ⟨data, position⟩
      let high ← shiftLeft 32 high 8
      return (high ||| second.toNat, c))
      (match (plainAt data position).rest with
        | b :: rest => .ok (high * 256 + b.toNat, ⟨position + 1, rest⟩)
        | [] => .error (.truncated position 1)) := by
  by_cases h : position < data.size
  · rw [rest_plainAt h, next_of_lt hdata h, Reading.ok_bind]
    dsimp only
    rw [shiftLeft_eq (by omega) (by rw [Nat.shiftLeft_eq]; omega), Reading.ok_bind, or_second]
    exact Agrees.ok h rfl
  · have hle := Nat.le_of_not_lt h
    rw [rest_plainAt_of_le hle, next_of_le hdata hle]
    exact Agrees.fault _

/-- A byte can be shifted by two others in a word of four. -/
theorem shiftLeft_byte (b : UInt8) {n : Nat} (hn : n ≤ 16) :
    shiftLeft 32 b.toNat n = .ok (b.toNat <<< n) := by
  refine shiftLeft_eq (by omega) ?_
  rw [Nat.shiftLeft_eq]
  calc b.toNat * 2 ^ n < 2 ^ 8 * 2 ^ n :=
        Nat.mul_lt_mul_of_pos_right b.toNat_lt (Nat.two_pow_pos n)
    _ ≤ 2 ^ 8 * 2 ^ 16 := Nat.mul_le_mul_left _ (Nat.pow_le_pow_right (by omega) hn)
    _ < 2 ^ 32 := by decide

/-- What stands behind the first of four bytes. -/
theorem agrees_last_three (hdata : data.size < 2 ^ 32) {high : Nat} (hhigh : high < 32)
    (position : Nat) :
    Agrees data id (do
      let rest ← slice data position 3
      let position ← add 64 position 3
      let high ← shiftLeft 32 high 24
      let b₁ ← index rest 0
      let middle ← shiftLeft 32 b₁.toNat 16
      let b₂ ← index rest 1
      let low ← shiftLeft 32 b₂.toNat 8
      let b₃ ← index rest 2
      return (high ||| middle ||| low ||| b₃.toNat, ⟨data, position⟩))
      (match (plainAt data position).rest with
        | b₁ :: b₂ :: b₃ :: rest =>
          .ok (high * 16777216 + b₁.toNat * 65536 + b₂.toNat * 256 + b₃.toNat,
            ⟨position + 3, rest⟩)
        | _ => .error (.truncated position 3)) := by
  rw [slice_eq hdata, Bytes.slice]
  by_cases hroom : position + 3 ≤ data.size
  · have hitem (i : Nat) (hi : i < 3) (hlt : position + i < data.size) :
        index (data.extract position (position + 3)) i = .ok data[position + i] := by
      apply index_eq
      rw [Array.getElem?_extract, if_pos (by omega), Array.getElem?_eq_getElem hlt]
    rw [if_pos hroom, rest_plainAt (by omega : position < data.size),
      rest_plainAt (by omega : position + 1 < data.size),
      rest_plainAt (by omega : position + 1 + 1 < data.size), lift_ok, Reading.ok_bind,
      add_eq (by omega), Reading.ok_bind,
      shiftLeft_eq (by omega) (by rw [Nat.shiftLeft_eq]; omega), Reading.ok_bind,
      hitem 0 (by omega) (by omega), Reading.ok_bind, shiftLeft_byte _ (by omega), Reading.ok_bind,
      hitem 1 (by omega) (by omega), Reading.ok_bind, shiftLeft_byte _ (by omega), Reading.ok_bind,
      hitem 2 (by omega) (by omega), Reading.ok_bind, or_third]
    exact Agrees.ok hroom rfl
  · rw [if_neg hroom]
    -- fewer than three bytes are left
    have hlength : (plainAt data position).rest.length < 3 := by
      rw [length_rest_plainAt]
      omega
    rcases hrest : (plainAt data position).rest with _ | ⟨_, _ | ⟨_, _ | ⟨_, _⟩⟩⟩
    · exact Agrees.fault _
    · exact Agrees.fault _
    · exact Agrees.fault _
    · rw [hrest] at hlength
      simp at hlength
      omega

theorem agrees_compressed (hdata : data.size < 2 ^ 32) (position : Nat) :
    Agrees data id (Cursor.compressed ⟨data, position⟩) (plainAt data position).compressed := by
  rw [Cursor.compressed, PublicAssembly.Cursor.compressed]
  by_cases h : position < data.size
  case neg =>
    have hle := Nat.le_of_not_lt h
    rw [rest_plainAt_of_le hle, next_of_le hdata hle]
    exact Agrees.fault _
  rw [rest_plainAt h, next_of_lt hdata h, Reading.ok_bind]
  dsimp only
  -- the upper bits of the first byte say as much as its place among the numbers
  obtain ⟨hone, htwo, hfour, htwoBits, hfourBits⟩ := lead_bits data[position]
  by_cases h₁ : data[position].toNat < 0x80
  · rw [if_pos (hone.2 h₁), if_pos h₁]
    exact Agrees.ok h rfl
  rw [if_neg (mt hone.1 h₁), if_neg h₁]
  by_cases h₂ : data[position].toNat < 0xC0
  · rw [if_pos ((htwo (by omega)).2 h₂), if_pos h₂, htwoBits (by omega) h₂]
    exact agrees_second hdata (by omega) (position + 1)
  rw [if_neg (mt (htwo (by omega)).1 h₂), if_neg h₂]
  by_cases h₃ : data[position].toNat < 0xE0
  · rw [if_pos ((hfour (by omega)).2 h₃), if_pos h₃, hfourBits (by omega) h₃]
    exact agrees_last_three hdata (by omega) (position + 1)
  · rw [if_neg (mt (hfour (by omega)).1 h₃), if_neg h₃]
    exact Agrees.fault _

/-- A compressed integer has 29 bits at most. -/
theorem compressed_lt {c d : PublicAssembly.Cursor} {n : Nat} (h : c.compressed = .ok (n, d)) :
    n < 2 ^ 29 := by
  rw [PublicAssembly.Cursor.compressed] at h
  split at h
  · cases h
  · next lead rest _ =>
    -- a bound for each form, from the bounds of its bytes
    split at h
    · cases h
      omega
    split at h
    · split at h
      · next b _ _ =>
        have hb := b.toNat_lt
        cases h
        omega
      · cases h
    split at h
    · split at h
      · next b₁ b₂ b₃ _ _ =>
        have h₁ := b₁.toNat_lt
        have h₂ := b₂.toNat_lt
        have h₃ := b₃.toNat_lt
        cases h
        omega
      · cases h
    · cases h

end PublicAssembly.Machine
