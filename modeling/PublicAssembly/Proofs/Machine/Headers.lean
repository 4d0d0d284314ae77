import PublicAssembly.Proofs.Image.Separation
import PublicAssembly.Proofs.Machine.Bytes

/-!
# PE headers and method bodies on a machine

Every number in the headers has four bytes at most, so the sum of a few of them, and of a place in
the list of the section headers, fits into a word of eight bytes. An address becomes an offset in
the same bounds (`offsetOf_lt`), and so the header of a method body is found.
-/

namespace PublicAssembly.Machine

open Image (Fault Section Headers Body)

/-- The number stored in `width` bytes at a distance from `offset`. -/
def numberAt (data : Bytes) (offset distance width : Nat) : Checked Nat := do
  let place ← add 64 offset distance
  number data place width

/-! ### Headers -/

/-- The section header in a place of the list that begins at `table`. -/
def sectionAt (data : Bytes) (table i : Nat) : Checked Section := do
  let before ← mul 64 i Headers.sectionHeaderSize
  let header ← add 64 table before
  let size ← numberAt data header 8 4
  let address ← numberAt data header 12 4
  let storedSize ← numberAt data header 16 4
  let storedAt ← numberAt data header 20 4
  return ⟨address, size, storedSize, storedAt⟩

/-- The offset of the data directories, by the mark with which the optional header begins. -/
def directoriesAt (optional mark : Nat) : Checked Nat :=
  if mark = 0x10B then add 64 optional 96
  else if mark = 0x20B then add 64 optional 112
  else .error (.fault (.notPe .unknownOptionalHeader))

/-- Read the headers of a PE file. -/
def readHeaders (data : Bytes) : Checked Headers := do
  if (data.extract 0 2).toList ≠ Headers.dosMark then
    throw (.fault (.notPe .missingDosMark))
  let pe ← number data 0x3C 4
  let mark ← slice data pe 4
  if mark.toList ≠ Headers.peMark then
    throw (.fault (.notPe .missingSignature))
  let coff ← add 64 pe 4
  let sectionCount ← numberAt data coff 2 2
  let optionalSize ← numberAt data coff 16 2
  let optional ← add 64 coff 20
  let optionalMark ← number data optional 2
  let directories ← directoriesAt optional optionalMark
  -- the directories are counted in the field before the first one
  let beforeDirectories ← sub directories 4
  let directoryCount ← number data beforeDirectories 4
  if directoryCount ≤ Headers.cliDirectory then
    throw (.fault (.notManaged .noCliDirectory))
  let distance ← mul 64 Headers.cliDirectory 8
  let cliHeader ← numberAt data directories distance 4
  if cliHeader = 0 then
    throw (.fault (.notManaged .emptyCliDirectory))
  let table ← add 64 optional optionalSize
  let sections ← (List.range sectionCount).mapM (sectionAt data table)
  return ⟨sections, cliHeader⟩

/-- The offset in the file of an address: the first of the sections that holds it decides. -/
def offsetIn (rva : Nat) : List Section → Checked Nat
  | [] => .error (.fault (.malformed (.addressOutside rva)))
  | s :: rest =>
    if s.address ≤ rva then do
      let inside ← sub rva s.address
      if inside < s.span then
        let delta ← sub rva s.address
        if s.storedSize ≤ delta then
          .error (.fault (.malformed (.addressNotStored rva)))
        else
          add 64 s.storedAt delta
      else
        offsetIn rva rest
    else
      offsetIn rva rest

/-- The offset in the file of the metadata root. -/
def metadataOffset (headers : Headers) (data : Bytes) : Checked Nat := do
  let cli ← offsetIn headers.cliHeader headers.sections
  let rva ← numberAt data cli 8 4
  if rva = 0 then
    throw (.fault (.notManaged .noMetadata))
  offsetIn rva headers.sections

section Headers

variable {data : Bytes}

theorem numberAt_eq (hdata : data.size < 2 ^ 32) {offset distance : Nat}
    (h : offset + distance < 2 ^ 64) (width : Nat) :
    numberAt data offset distance width = lift (data.number (offset + distance) width) := by
  rw [numberAt, add_eq h, Reading.ok_bind, number_eq hdata]

/-- A number of four bytes is a word of 32 bits. -/
theorem number_four_lt {offset n : Nat} (h : data.number offset 4 = .ok n) : n < 2 ^ 32 :=
  Bytes.number_lt h

/-- A number of two bytes is a word of 16 bits. -/
theorem number_two_lt {offset n : Nat} (h : data.number offset 2 = .ok n) : n < 2 ^ 16 :=
  Bytes.number_lt h

theorem mapM_sectionAt (hdata : data.size < 2 ^ 32) {table first count : Nat}
    (hbound : table + (first + count) * Headers.sectionHeaderSize < 2 ^ 63) :
    (List.range' first count).mapM (sectionAt data table) =
      lift (Headers.readSections data count (table + first * Headers.sectionHeaderSize)) := by
  induction count generalizing first with
  | zero => rfl
  | succ count ih =>
    -- the next section header begins one header further, and is still within the bound
    have hrest := @ih (first + 1) (by rwa [Nat.add_right_comm, Nat.add_assoc])
    simp only [Headers.sectionHeaderSize] at hbound hrest ⊢
    rw [List.range'_succ, List.mapM_cons, sectionAt, Headers.readSections,
      Headers.sectionHeaderSize, mul_eq (by omega), Reading.ok_bind, add_eq (by omega),
      Reading.ok_bind, bind_assoc, numberAt_eq hdata (by omega)]
    refine bind_eq_lift rfl fun size _ => ?_
    rw [numberAt_eq hdata (by omega), bind_assoc]
    refine bind_eq_lift rfl fun address _ => ?_
    rw [numberAt_eq hdata (by omega), bind_assoc]
    refine bind_eq_lift rfl fun storedSize _ => ?_
    rw [numberAt_eq hdata (by omega), bind_assoc]
    refine bind_eq_lift rfl fun storedAt _ => ?_
    rw [hrest, show table + (first + 1) * 40 = table + first * 40 + 40 by omega]
    exact bind_eq_lift rfl fun rest _ => rfl

/-- The data directories lie behind the fixed part of the optional header. -/
theorem directoriesOffset_bounds {mark distance : Nat}
    (h : Headers.directoriesOffset mark = .ok distance) : 4 ≤ distance ∧ distance ≤ 112 := by
  rw [Headers.directoriesOffset] at h
  split at h
  · cases h
    omega
  · split at h
    · cases h
      omega
    · cases h

theorem directoriesAt_eq {optional : Nat} (h : optional < 2 ^ 63) (mark : Nat) :
    directoriesAt optional mark =
      lift (Headers.directoriesOffset mark >>= fun distance => .ok (optional + distance)) := by
  rw [directoriesAt, Headers.directoriesOffset, add_eq (by omega), add_eq (by omega)]
  split
  · rfl
  · split
    · rfl
    · rfl

theorem readHeaders_eq (hdata : data.size < 2 ^ 32) :
    readHeaders data = lift (Headers.read data) := by
  -- step by step; a number that was read has four bytes at most, so that no offset overflows
  rw [readHeaders, Headers.read]
  refine ite_eq_lift (fun _ => rfl) fun _ => ?_
  rw [number_eq hdata]
  refine bind_eq_lift rfl fun pe hpe => ?_
  have hpe := number_four_lt hpe
  rw [slice_eq hdata]
  refine bind_eq_lift rfl fun mark _ => ite_eq_lift (fun _ => rfl) fun _ => ?_
  dsimp only
  rw [add_eq (by omega), Reading.ok_bind, numberAt_eq hdata (by omega)]
  refine bind_eq_lift rfl fun sectionCount hcount => ?_
  have hcount := number_two_lt hcount
  rw [numberAt_eq hdata (by omega)]
  refine bind_eq_lift rfl fun optionalSize hsize => ?_
  have hsize := number_two_lt hsize
  rw [add_eq (by omega), Reading.ok_bind, number_eq hdata]
  refine bind_eq_lift rfl fun optionalMark _ => ?_
  rw [directoriesAt_eq (by omega)]
  rcases hdirectories : Headers.directoriesOffset optionalMark with _ | distance
  · rfl
  have hdistance := directoriesOffset_bounds hdirectories
  rw [Reading.ok_bind, Reading.ok_bind, lift_ok, Reading.ok_bind, sub_eq (by omega),
    Reading.ok_bind, number_eq hdata]
  refine bind_eq_lift rfl fun directoryCount _ => ite_eq_lift (fun _ => rfl) fun _ => ?_
  rw [Headers.cliDirectory, mul_eq (by omega), Reading.ok_bind, numberAt_eq hdata (by omega)]
  refine bind_eq_lift rfl fun cliHeader _ => ite_eq_lift (fun _ => rfl) fun _ => ?_
  rw [add_eq (by omega), Reading.ok_bind, List.range_eq_range', mapM_sectionAt hdata]
  · rw [Nat.zero_mul, Nat.add_zero]
    exact bind_eq_lift rfl fun sections _ => rfl
  · rw [Headers.sectionHeaderSize]
    omega

/-! ### Addresses -/

/-- What the headers say fits into words of 32 bits. -/
structure HeadersFit (headers : Headers) : Prop where
  /-- The address of the CLI header does. -/
  cliHeader : headers.cliHeader < 2 ^ 32
  /-- The offset of every section does. -/
  storedAt : ∀ s ∈ headers.sections, s.storedAt < 2 ^ 32

theorem storedAt_lt {count offset : Nat} {sections : List Section}
    (h : Headers.readSections data count offset = .ok sections) :
    ∀ s ∈ sections, s.storedAt < 2 ^ 32 := by
  induction count generalizing offset sections with
  | zero =>
    cases h
    nofun
  | succ count ih =>
    simp only [Headers.readSections, Reading.bind_eq_ok_iff, Reading.pure_eq_ok_iff] at h
    obtain ⟨size, -, address, -, storedSize, -, storedAt, hstored, rest, hrest, rfl⟩ := h
    rw [List.forall_mem_cons]
    exact ⟨number_four_lt hstored, ih hrest⟩

theorem headersFit {headers : Headers} (h : Headers.read data = .ok headers) :
    HeadersFit headers := by
  simp only [Headers.read, Reading.bind_eq_ok_iff, Reading.throw_eq, Reading.error_bind,
    Reading.ite_error_eq_ok_iff, Reading.pure_eq_ok_iff] at h
  obtain ⟨-, pe, -, mark, -, -, count, -, size, -, optionalMark, -, distance, -, directories, -, -,
    cliHeader, hcli, -, sections, hsections, rfl⟩ := h
  exact ⟨number_four_lt hcli, storedAt_lt hsections⟩

variable {headers : Headers} {rva : Nat}

theorem offsetIn_eq (hfit : HeadersFit headers) (hrva : rva < 2 ^ 32) :
    offsetIn rva headers.sections = lift (headers.offsetOf rva) := by
  obtain ⟨sections, cliHeader⟩ := headers
  replace hfit := hfit.storedAt
  dsimp only at hfit
  rw [Headers.offsetOf]
  dsimp only
  induction sections with
  | nil => rfl
  | cons s rest ih =>
    rw [List.forall_mem_cons] at hfit
    rw [offsetIn]
    -- whether the first section holds the address is asked in two steps
    by_cases haddress : s.address ≤ rva
    · rw [if_pos haddress, sub_eq haddress, Reading.ok_bind]
      by_cases hspan : rva - s.address < s.span
      · rw [if_pos hspan, Reading.ok_bind,
          List.find?_cons_of_pos (by simp [Section.Holds, haddress, hspan])]
        refine ite_eq_lift (fun _ => rfl) fun _ => ?_
        rw [add_eq (by omega), lift_ok]
      · rw [if_neg hspan, List.find?_cons_of_neg (by simp [Section.Holds, hspan])]
        exact ih hfit.2
    · rw [if_neg haddress, List.find?_cons_of_neg (by simp [Section.Holds, haddress])]
      exact ih hfit.2

/-- An offset is not much greater than a word of 32 bits. -/
theorem offsetOf_lt (hfit : HeadersFit headers) (hrva : rva < 2 ^ 32) {offset : Nat}
    (h : headers.offsetOf rva = .ok offset) : offset < 2 ^ 33 := by
  rw [Headers.offsetOf] at h
  split at h
  · cases h
  · next s hs =>
    rw [Reading.ite_error_eq_ok_iff] at h
    obtain ⟨-, h⟩ := h
    have hstored := hfit.storedAt s (List.mem_of_find?_eq_some hs)
    cases h
    omega

theorem metadataOffset_eq (hdata : data.size < 2 ^ 32) (hfit : HeadersFit headers) :
    metadataOffset headers data = lift (headers.metadataOffset data) := by
  rw [metadataOffset, Headers.metadataOffset, offsetIn_eq hfit hfit.cliHeader]
  refine bind_eq_lift rfl fun cli hcli => ?_
  have hcli := offsetOf_lt hfit hfit.cliHeader hcli
  rw [numberAt_eq hdata (by omega)]
  refine bind_eq_lift rfl fun rva hrva => ite_eq_lift (fun _ => rfl) fun _ => ?_
  exact offsetIn_eq hfit (number_four_lt hrva)

/-- The metadata root begins at an offset that is not much greater than a word of 32 bits. -/
theorem metadataOffset_lt (hfit : HeadersFit headers) {root : Nat}
    (h : headers.metadataOffset data = .ok root) : root < 2 ^ 33 := by
  simp only [Headers.metadataOffset, Reading.bind_eq_ok_iff, Reading.throw_eq, Reading.error_bind,
    Reading.ite_error_eq_ok_iff] at h
  obtain ⟨cli, -, rva, hrva, -, hroot⟩ := h
  exact offsetOf_lt hfit (number_four_lt hrva) hroot

end Headers

/-! ### Method bodies -/

/-- The code of a body. -/
def codeOf (body : Body) (data : Bytes) : Checked Bytes := do
  let offset ← add 64 body.headerOffset body.headerSize
  slice data offset body.codeSize

/-- Read the header of the body at `offset`. -/
def readBodyHeader (data : Bytes) (offset : Nat) : Checked Body := do
  let first ← byte data offset
  if first.toNat &&& 0x3 = 2 then
    let codeSize ← shiftRight 8 first.toNat 2
    return ⟨offset, 1, codeSize⟩
  else if first.toNat &&& 0x3 = 3 then
    let flags ← number data offset 2
    -- a large header has its own size in words above twelve bits of flags
    let words ← shiftRight 16 flags 12
    let headerSize ← mul 64 (words &&& 0xF) 4
    if headerSize < Body.minFatHeader then
      throw (.fault (.malformed (.fatHeaderTooSmall offset headerSize)))
    let codeSize ← numberAt data offset 4 4
    return ⟨offset, headerSize, codeSize⟩
  else
    throw (.fault (.malformed (.unknownBodyFormat first.toNat offset)))

/-- Read the body at `offset`, and its code once more. -/
def readBody (data : Bytes) (offset : Nat) : Checked (Body × Bytes) := do
  let body ← readBodyHeader data offset
  let _ ← codeOf body data
  let code ← codeOf body data
  return (body, code)

section Bodies

variable {data : Bytes} {offset : Nat}

theorem readBodyHeader_eq (hdata : data.size < 2 ^ 32) (hoffset : offset < 2 ^ 33) :
    readBodyHeader data offset = lift (Body.readHeader data offset) := by
  rw [readBodyHeader, Body.readHeader, byte_eq hdata]
  refine bind_eq_lift rfl fun first _ => ?_
  dsimp only
  -- masks and shifts are remainders and quotients by powers of two
  rw [Nat.and_two_pow_sub_one_eq_mod first.toNat 2, shiftRight_eq (by omega)]
  refine ite_eq_lift (fun _ => ?_) fun _ => ite_eq_lift (fun _ => ?_) fun _ => rfl
  · rw [Reading.ok_bind, Nat.shiftRight_eq_div_pow]
    rfl
  · rw [number_eq hdata]
    refine bind_eq_lift rfl fun flags hflags => ?_
    have hflags := number_two_lt hflags
    have hwords : flags >>> 12 &&& 0xF = flags / 4096 := by
      rw [Nat.and_two_pow_sub_one_eq_mod _ 4, Nat.shiftRight_eq_div_pow]
      omega
    rw [shiftRight_eq (by omega), Reading.ok_bind, hwords, mul_eq (by omega), Reading.ok_bind]
    refine ite_eq_lift (fun _ => rfl) fun _ => ?_
    rw [numberAt_eq hdata (by omega)]
    exact bind_eq_lift rfl fun codeSize _ => rfl

/-- The header of a body has sixty bytes at most. -/
theorem headerSize_le {body : Body} (h : Body.readHeader data offset = .ok body) :
    body.headerSize ≤ 60 := by
  obtain ⟨first, -, ⟨-, rfl⟩ | ⟨-, flags, codeSize, hflags, -, -, rfl⟩⟩ :=
    Body.readHeader_eq_ok_iff.1 h
  · dsimp only
    omega
  · have hflags := number_two_lt hflags
    dsimp only
    omega

theorem readBody_eq (hdata : data.size < 2 ^ 32) (hoffset : offset < 2 ^ 33) :
    readBody data offset = lift (Body.read data offset) := by
  rw [readBody, Body.read, readBodyHeader_eq hdata hoffset]
  refine bind_eq_lift rfl fun body hbody => ?_
  obtain ⟨hstart, -⟩ := Body.place_of_readHeader hbody
  have hsize := headerSize_le hbody
  have hcode : codeOf body data = lift (body.code data) := by
    rw [codeOf, add_eq (by omega), Reading.ok_bind, slice_eq hdata]
    rfl
  rw [hcode]
  rcases body.code data with cause | code
  · rfl
  · rfl

end Bodies

end PublicAssembly.Machine
