import PublicAssembly.Metadata.Root
import PublicAssembly.Proofs.Bytes.Compressed

/-!
# Blobs and their lengths

The blob heap holds byte strings, each behind its length as a compressed integer. An index leads to
the length, and the bytes behind it are the blob if the heap has so many.

## Main definitions

* `HoldsBlob`: the blob heap holds a blob at an index.

## Main statements

* `blob_eq_ok_iff`: the blobs that are read are those that the heap holds;
* `compressed_and_blobs`: compressed integers and blobs are read wherever they are stored, and only
  there.
-/

namespace PublicAssembly.Metadata

open Signature (StoredNumber)

/-- The heap holds a blob at an index: its length in a form that has room for it, and its bytes
behind the length. -/
def HoldsBlob (heap : Bytes) (index : Nat) (content : Bytes) : Prop :=
  ∃ (before : List UInt8) (form : CompressedForm) (after : List UInt8),
    before.length = index ∧ content.size < form.bound ∧
      heap.toList = before ++ form.encode content.size ++ content.toList ++ after

/-- The four bytes from the place of a stored number on begin with the number. -/
theorem take_four (number : StoredNumber) (tail : List UInt8) :
    ∃ others, (number.bytes ++ tail).take 4 = number.bytes ++ others := by
  have hle : number.bytes.length ≤ 4 := by
    rw [number.length_bytes]
    rcases number.form.length_eq with h | h | h <;> omega
  exact ⟨_, by rw [List.take_append, List.take_of_length_le hle]⟩

/-- A blob is read behind a stored number if the heap has as many bytes there. -/
theorem blob_of_number {md : Metadata} {before tail : List UInt8} (number : StoredNumber)
    (hheap : md.blobs.toList = before ++ (number.bytes ++ tail)) :
    md.blob before.length =
      if number.value ≤ tail.length then .ok (tail.take number.value).toArray
      else .error (.truncated number.bytes.length number.value) := by
  have hsize : md.blobs.size = before.length + (number.bytes.length + tail.length) := by
    rw [← Array.length_toList, hheap, List.length_append, List.length_append]
  have hsome : number.bytes.length ≠ 0 := by
    rw [number.length_bytes]
    rcases number.form.length_eq with h | h | h <;> omega
  obtain ⟨others, hothers⟩ := take_four number tail
  -- the length is read off the first bytes at the index
  have hfront : (md.blobs.extract before.length (before.length + 4)).toList =
      number.bytes ++ others := by
    rw [Array.toList_extract, List.extract_eq_take_drop, Nat.add_sub_cancel_left, hheap,
      List.drop_left, hothers]
  rw [blob, if_neg (by omega), if_neg (by omega), hfront, Cursor.start, number.compressed_bytes]
  dsimp only
  rw [Nat.zero_add]
  refine if_congr (by omega) ?_ rfl
  -- the bytes of the blob are those behind the length
  congr 1
  apply Array.ext'
  rw [Array.toList_extract, List.extract_eq_take_drop, Nat.add_sub_cancel_left, hheap,
    ← List.drop_drop, List.drop_left, List.drop_left, List.toList_toArray]

/-- What is read at an index as a blob is held there, or there is no heap. -/
theorem holdsBlob_of_blob {md : Metadata} {index : Nat} {content : Bytes}
    (h : md.blob index = .ok content) (hheap : ¬(index = 0 ∧ md.blobs.size = 0)) :
    HoldsBlob md.blobs index content := by
  have hinside : index ≤ md.blobs.size ∧ ∃ length c,
      (Cursor.start (md.blobs.extract index (index + 4)).toList).compressed = .ok (length, c) := by
    rw [blob, if_neg hheap] at h
    split at h
    · cases h
    · next hle =>
      split at h
      · cases h
      · next length c hread => exact ⟨Nat.le_of_not_lt hle, length, c, hread⟩
  obtain ⟨hle, length, c, hread⟩ := hinside
  obtain ⟨number, -, hfront, -⟩ := Cursor.exists_of_compressed_inside hread
  rw [List.drop_zero, Array.toList_extract, List.extract_eq_take_drop,
    Nat.add_sub_cancel_left] at hfront
  -- so the heap is the bytes before the index, the length, and a tail
  have hbefore : (md.blobs.toList.take index).length = index := by
    rw [List.length_take, Array.length_toList, Nat.min_eq_left hle]
  have hsplit : md.blobs.toList = md.blobs.toList.take index ++
      (number.bytes ++ (c.rest ++ (md.blobs.toList.drop index).drop 4)) := by
    rw [← List.append_assoc number.bytes, ← hfront, List.take_append_drop, List.take_append_drop]
  have hblob := blob_of_number number hsplit
  rw [hbefore, h] at hblob
  split at hblob
  · next hroom =>
    cases hblob
    have hsize : ((c.rest ++ (md.blobs.toList.drop index).drop 4).take number.value).toArray.size =
        number.value := by
      rw [List.size_toArray, List.length_take, Nat.min_eq_left hroom]
    refine ⟨_, number.form, (c.rest ++ (md.blobs.toList.drop index).drop 4).drop number.value,
      hbefore, ?_, ?_⟩
    · rw [hsize]
      exact number.lt_bound
    · rw [hsize, List.toList_toArray, List.append_assoc, List.append_assoc, List.take_append_drop]
      exact hsplit
  · cases hblob

/-- A blob is read at an index if the heap holds it there. Without a heap, index 0 leads to the
empty blob. -/
theorem blob_eq_ok_iff {md : Metadata} {index : Nat} {content : Bytes} :
    md.blob index = .ok content ↔
      (index = 0 ∧ md.blobs.size = 0 ∧ content = #[]) ∨ HoldsBlob md.blobs index content := by
  constructor
  · intro h
    by_cases hheap : index = 0 ∧ md.blobs.size = 0
    · rw [blob, if_pos hheap] at h
      cases h
      exact .inl ⟨hheap.1, hheap.2, rfl⟩
    · exact .inr (holdsBlob_of_blob h hheap)
  · rintro (⟨hindex, hsize, rfl⟩ | ⟨before, form, after, rfl, hlt, hheap⟩)
    · rw [blob, if_pos ⟨hindex, hsize⟩]
    · rw [List.append_assoc, List.append_assoc] at hheap
      have hread := blob_of_number ⟨form, content.size, hlt⟩ hheap
      dsimp only at hread
      rw [hread, if_pos (by simp), ← Array.length_toList, List.take_left]

/-- No blob is read at an index if the heap holds none there, unless there is no heap and the index
is 0. -/
theorem exists_blob_eq_error_iff {md : Metadata} {index : Nat} :
    (∃ fault, md.blob index = .error fault) ↔
      ¬(index = 0 ∧ md.blobs.size = 0) ∧ ∀ content, ¬HoldsBlob md.blobs index content := by
  constructor
  · rintro ⟨fault, hfault⟩
    have hother (content : Bytes) : md.blob index ≠ .ok content := by simp [hfault]
    refine ⟨fun hheap => hother #[] ?_, fun content hholds => hother content ?_⟩
    · exact blob_eq_ok_iff.2 (.inl ⟨hheap.1, hheap.2, rfl⟩)
    · exact blob_eq_ok_iff.2 (.inr hholds)
  · rintro ⟨hheap, hnone⟩
    cases hblob : md.blob index with
    | error fault => exact ⟨fault, rfl⟩
    | ok content => exact absurd (holdsBlob_of_blob hblob hheap) (hnone content)

/-- Every number below `2 ^ 29` has a stored form. In each form that has room for it, a number is
read wherever it stands, whatever stands before and behind it, and exactly its bytes are passed.
Whatever is read is such a number. The reading fails for a malformed integer if the first byte is
`0xE0` or above, and for the end of the data if a byte that the first one announces is missing, or
the first one itself. So a blob is read at an index if the heap holds it there, its length and its
bytes, and the reading fails otherwise; without a heap, index 0 leads to the empty blob. -/
theorem compressed_and_blobs :
    (∀ n, n < 2 ^ 29 ↔ ∃ form : CompressedForm, n < form.bound) ∧
      (∀ (before : List UInt8) (form : CompressedForm) (n : Nat) (after : List UInt8),
        n < form.bound →
        (Cursor.inside (before ++ form.encode n ++ after) before.length).compressed =
          .ok (n, Cursor.inside (before ++ form.encode n ++ after)
            (before.length + form.length))) ∧
      (∀ bytes position n c, (Cursor.inside bytes position).compressed = .ok (n, c) →
        n < 2 ^ 29 ∧ ∃ form : CompressedForm, n < form.bound ∧
          (form.length = 1 ∨ form.length = 2 ∨ form.length = 4) ∧
          bytes.drop position = form.encode n ++ c.rest ∧
          c = Cursor.inside bytes (position + form.length)) ∧
      (∀ bytes position cause,
        (Cursor.inside bytes position).compressed = .error (.malformed cause) ↔
          ∃ lead, bytes[position]? = some lead ∧ 0xE0 ≤ lead.toNat ∧
            cause = .badLeadByte lead.toNat) ∧
      (∀ bytes position offset wanted,
        (Cursor.inside bytes position).compressed = .error (.truncated offset wanted) ↔
          (bytes.length ≤ position ∧ offset = position ∧ wanted = 1) ∨
            ∃ lead form, bytes[position]? = some lead ∧
              CompressedForm.ofLead? lead = some form ∧ bytes.length < position + form.length ∧
              offset = position + 1 ∧ wanted = form.length - 1) ∧
      ∀ (md : Metadata) (index : Nat),
        (∀ content, md.blob index = .ok content ↔
          (index = 0 ∧ md.blobs.size = 0 ∧ content = #[]) ∨ HoldsBlob md.blobs index content) ∧
        ((∃ fault, md.blob index = .error fault) ↔
          ¬(index = 0 ∧ md.blobs.size = 0) ∧ ∀ content, ¬HoldsBlob md.blobs index content) := by
  refine ⟨?_, ?_, ?_, ?_, ?_, fun md index => ⟨fun content => blob_eq_ok_iff, ?_⟩⟩
  · intro n
    refine ⟨fun hlt => ⟨.four, hlt⟩, ?_⟩
    rintro ⟨form, hlt⟩
    exact Nat.lt_of_lt_of_le hlt form.bound_le
  · intro before form n after hlt
    exact Cursor.compressed_inside before ⟨form, n, hlt⟩ after
  · intro bytes position n c hread
    obtain ⟨number, rfl, hbytes, hc⟩ := Cursor.exists_of_compressed_inside hread
    refine ⟨Nat.lt_of_lt_of_le number.lt_bound number.form.bound_le, number.form, number.lt_bound,
      number.form.length_eq, hbytes, hc⟩
  · intro bytes position cause
    rw [Cursor.compressed_inside_eq_error_iff]
    simp [CompressedForm.ofLead?_eq_none_iff]
  · intro bytes position offset wanted
    rw [Cursor.compressed_inside_eq_error_iff]
    simp
  · exact exists_blob_eq_error_iff

/-- A number in two bytes that would fit into one is read between two other bytes, and what is read
there takes the two bytes. -/
theorem compressed_and_blobs_three :
    3 < CompressedForm.two.bound ∧
      (Cursor.inside ([0xFF] ++ CompressedForm.two.encode 3 ++ [0x07]) 1).compressed =
        .ok (3, Cursor.inside ([0xFF] ++ CompressedForm.two.encode 3 ++ [0x07]) 3) ∧
      ∃ form : CompressedForm, 3 < form.bound ∧ [0x80, 0x03, 0x07] = form.encode 3 ++ [0x07] := by
  have hlt : 3 < CompressedForm.two.bound := by decide
  obtain ⟨-, hstored, hfound, -⟩ := compressed_and_blobs
  have hread := hstored [0xFF] .two 3 [0x07] hlt
  obtain ⟨-, form, hbound, -, hbytes, -⟩ := hfound _ _ _ _ hread
  exact ⟨hlt, hread, form, hbound, hbytes⟩

end PublicAssembly.Metadata
