import Mathlib.Algebra.GroupWithZero.Nat
import PublicAssembly.Proofs.Signature.Unambiguity

/-!
# Compressed integers at a place of some bytes

The upper bits of the first byte announce in which form a compressed integer is stored. If the bytes
of the form are there, the number is read and they are passed; if not, or if the byte announces no
form, the reading says so.

## Main definitions

* `Cursor.inside`: the cursor at a place of some bytes;
* `CompressedForm.ofLead?`: the form that a first byte announces.

## Main statements

* `Cursor.compressed_inside`: a stored number is read wherever it stands;
* `Cursor.exists_of_compressed_inside`: whatever is read as a number is a stored number;
* `Cursor.compressed_inside_eq_error_iff`: the ways in which no number can be read.
-/

namespace PublicAssembly

open Image (Fault)
open Signature (StoredNumber)

namespace CompressedForm

/-- The form that the first byte of a stored number announces. -/
def ofLead? (lead : UInt8) : Option CompressedForm :=
  if lead.toNat < 0x80 then some one
  else if lead.toNat < 0xC0 then some two
  else if lead.toNat < 0xE0 then some four
  else none

/-- No form has room for more than 29 bits. -/
theorem bound_le (form : CompressedForm) : form.bound ≤ 2 ^ 29 := by
  cases form <;> decide

/-- A form takes one byte, two bytes or four. -/
theorem length_eq (form : CompressedForm) :
    form.length = 1 ∨ form.length = 2 ∨ form.length = 4 := by
  cases form <;> simp [length]

/-- The bytes from `0xE0` on announce no form. -/
theorem ofLead?_eq_none_iff {lead : UInt8} : ofLead? lead = none ↔ 0xE0 ≤ lead.toNat := by
  rw [ofLead?]
  split_ifs with h₁ h₂ h₃
  · exact iff_of_false nofun (by omega)
  · exact iff_of_false nofun (by omega)
  · exact iff_of_false nofun (by omega)
  · exact iff_of_true rfl (by omega)

end CompressedForm

/-- A stored number has as many bytes as its form. -/
theorem Signature.StoredNumber.length_bytes (number : StoredNumber) :
    number.bytes.length = number.form.length :=
  number.form.length_encode number.value

namespace Cursor

/-- The cursor at a place of some bytes. -/
def inside (bytes : List UInt8) (position : Nat) : Cursor :=
  ⟨position, bytes.drop position⟩

/-- At the start of the bytes there is nothing before the cursor. -/
theorem start_eq_inside (bytes : List UInt8) : start bytes = inside bytes 0 := rfl

/-- The cursor stands behind the bytes before it. -/
theorem inside_append (before after : List UInt8) :
    inside (before ++ after) before.length = ⟨before.length, after⟩ := by
  rw [inside, List.drop_left]

/-- Passing bytes leaves the cursor inside of the same bytes. -/
theorem inside_add {bytes word rest : List UInt8} {position : Nat}
    (h : bytes.drop position = word ++ rest) :
    inside bytes (position + word.length) = ⟨position + word.length, rest⟩ := by
  rw [inside, ← List.drop_drop, h, List.drop_left]

/-- The bytes from a place on begin with the byte at the place. -/
theorem drop_eq_cons_iff {bytes rest : List UInt8} {position : Nat} {lead : UInt8} :
    bytes.drop position = lead :: rest ↔
      bytes[position]? = some lead ∧ rest = bytes.drop (position + 1) := by
  rw [← List.head?_drop, ← List.tail_drop]
  cases bytes.drop position with
  | nil => simp
  | cons b tail => simp [eq_comm]

/-- Where a byte can be read, there is one, and it is passed. -/
theorem exists_of_next_inside {bytes : List UInt8} {position : Nat} {b : UInt8} {c : Cursor}
    (h : (inside bytes position).next = .ok (b, c)) :
    position < bytes.length ∧ c = inside bytes (position + 1) := by
  rw [next, inside] at h
  split at h
  · cases h
  · next lead rest hrest =>
    cases h
    obtain ⟨hlead, rfl⟩ := drop_eq_cons_iff.1 hrest
    exact ⟨(List.getElem?_eq_some_iff.1 hlead).1, rfl⟩

/-- A stored number is read wherever it stands, whatever stands before and behind it, and its bytes
are passed. -/
theorem compressed_inside (before : List UInt8) (number : StoredNumber) (after : List UInt8) :
    (inside (before ++ number.bytes ++ after) before.length).compressed =
      .ok (number.value,
        inside (before ++ number.bytes ++ after) (before.length + number.form.length)) := by
  have hbehind : inside (before ++ number.bytes ++ after) (before.length + number.form.length) =
      ⟨before.length + number.form.length, after⟩ := by
    rw [← number.length_bytes]
    exact inside_add (by rw [List.append_assoc, List.drop_left])
  rw [hbehind, List.append_assoc, inside_append, number.compressed_bytes, number.length_bytes]

/-- Whatever is read as a number is a stored number at the place of the cursor, and exactly its
bytes are passed. -/
theorem exists_of_compressed_inside {bytes : List UInt8} {position value : Nat} {c : Cursor}
    (h : (inside bytes position).compressed = .ok (value, c)) :
    ∃ number : StoredNumber, number.value = value ∧
      bytes.drop position = number.bytes ++ c.rest ∧
      c = inside bytes (position + number.form.length) := by
  obtain ⟨number, rfl, hrest⟩ := StoredNumber.exists_of_compressed h
  change bytes.drop position = number.bytes ++ c.rest at hrest
  have hread := number.compressed_bytes position c.rest
  rw [← hrest] at hread
  -- the reading has one result, so that the cursor is the one behind the number
  have hc := h.symm.trans hread
  simp only [Except.ok.injEq, Prod.mk.injEq, true_and] at hc
  refine ⟨number, rfl, hrest, ?_⟩
  rw [← number.length_bytes, inside_add hrest]
  exact hc

section Lead

variable {position : Nat} {lead : UInt8} {rest : List UInt8} {form : CompressedForm}

/-- No number is read behind a byte that announces no form. -/
theorem compressed_of_ofLead?_eq_none (h : CompressedForm.ofLead? lead = none) :
    compressed ⟨position, lead :: rest⟩ = .error (.malformed (.badLeadByte lead.toNat)) := by
  have hlead := CompressedForm.ofLead?_eq_none_iff.1 h
  simp only [compressed]
  rw [if_neg (by omega), if_neg (by omega), if_neg (by omega)]

/-- No number is read if bytes of the form are missing. -/
theorem compressed_of_missing (h : CompressedForm.ofLead? lead = some form)
    (hmissing : rest.length + 1 < form.length) :
    compressed ⟨position, lead :: rest⟩ =
      .error (.truncated (position + 1) (form.length - 1)) := by
  simp only [compressed]
  rw [CompressedForm.ofLead?] at h
  split_ifs at h ⊢
  · cases h
    -- the only byte is the first one
    rw [CompressedForm.length] at hmissing
    omega
  · cases h
    rcases rest with _ | ⟨_, _⟩
    · rfl
    · rw [List.length_cons, CompressedForm.length] at hmissing
      omega
  · cases h
    -- there are at most two of the three other bytes
    rcases rest with _ | ⟨_, _ | ⟨_, _ | _⟩⟩
    · rfl
    · rfl
    · rfl
    · rw [List.length_cons, List.length_cons, List.length_cons, CompressedForm.length] at hmissing
      omega

/-- A number is read if the bytes of the form are there. -/
theorem exists_compressed (h : CompressedForm.ofLead? lead = some form)
    (hroom : form.length ≤ rest.length + 1) :
    ∃ found, compressed ⟨position, lead :: rest⟩ = .ok found := by
  simp only [compressed]
  rw [CompressedForm.ofLead?] at h
  -- the first byte decides the same in both, and then there are enough bytes
  split_ifs at h ⊢
  · exact ⟨_, rfl⟩
  · cases h
    rcases rest with _ | ⟨_, _⟩
    · cases Nat.not_succ_le_self 1 hroom
    · exact ⟨_, rfl⟩
  · cases h
    rcases rest with _ | ⟨_, _ | ⟨_, _ | _⟩⟩
    · simp [CompressedForm.length] at hroom
    · simp [CompressedForm.length] at hroom
    · simp [CompressedForm.length] at hroom
    · exact ⟨_, rfl⟩

end Lead

/-- There are three ways in which no number can be read at a place: there is no byte, the byte
announces no form, or bytes of the form are missing. -/
theorem compressed_inside_eq_error_iff {bytes : List UInt8} {position : Nat} {fault : Fault} :
    (inside bytes position).compressed = .error fault ↔
      (bytes[position]? = none ∧ fault = .truncated position 1) ∨
        ∃ lead, bytes[position]? = some lead ∧
          ((CompressedForm.ofLead? lead = none ∧
              fault = .malformed (.badLeadByte lead.toNat)) ∨
            ∃ form, CompressedForm.ofLead? lead = some form ∧
              bytes.length < position + form.length ∧
              fault = .truncated (position + 1) (form.length - 1)) := by
  cases hplace : bytes[position]? with
  | none =>
    have hend : bytes.drop position = [] :=
      List.drop_eq_nil_iff.2 (List.getElem?_eq_none_iff.1 hplace)
    simp [inside, hend, compressed, eq_comm]
  | some lead =>
    have hcons := drop_eq_cons_iff.2 ⟨hplace, rfl⟩
    -- the bytes that are left behind the first one are as many as the data has behind the place
    have hlength := congrArg List.length hcons
    rw [List.length_drop, List.length_cons] at hlength
    simp only [inside, hcons, reduceCtorEq, false_and, false_or, Option.some.injEq,
      exists_eq_left']
    cases hform : CompressedForm.ofLead? lead with
    | none =>
      rw [compressed_of_ofLead?_eq_none hform]
      simp [eq_comm]
    | some form =>
      simp only [reduceCtorEq, false_and, false_or, Option.some.injEq, exists_eq_left']
      by_cases hmissing : bytes.length < position + form.length
      · rw [compressed_of_missing hform (by omega)]
        simp [hmissing, eq_comm]
      · -- all bytes of the form are there, and so there is a number
        obtain ⟨found, hfound⟩ : ∃ found,
            compressed ⟨position, lead :: bytes.drop (position + 1)⟩ = .ok found :=
          exists_compressed hform (by omega)
        rw [hfound]
        simp [hmissing]

end Cursor

end PublicAssembly
