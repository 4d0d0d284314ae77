import PublicAssembly.Proofs.Machine.Tables

/-!
# The metadata on a machine

Every stream header is read before the place of the next one is computed, so that place is never far
behind the end of the data. A string of the string heap is cut off at a zero that was found in it.
The names of types are looked up in passing: a fault on the way is forgotten, whatever else stops
the machine is not.
-/

namespace PublicAssembly.Machine

open Image (Fault)
open Metadata (StreamHeader Streams Table)

/-! ### Streams -/

/-- The number of bytes of the stream name at `start`, when `length` of them were passed, in so many
rounds. -/
def nameLength (data : Bytes) (start : Nat) : (rounds length : Nat) → Checked Nat
  | 0, _ => .error .endless
  | rounds + 1, length => do
    let b ← byteAt data start length
    if b = 0 then
      return length
    else
      let next ← add 64 length 1
      if Metadata.maxStreamName < next then
        .error (.fault (.malformed .streamNameTooLong))
      else
        nameLength data start rounds next

/-- Read the stream header at `offset`, and say where the next one begins. -/
def readStreamHeader (data : Bytes) (offset : Nat) : Checked (StreamHeader × Nat) := do
  let first ← number data offset 4
  let size ← numberAt data offset 4 4
  let start ← add 64 offset 8
  let length ← nameLength data start (Metadata.maxStreamName + 1) 0
  let name ← slice data start length
  let padded ← add 64 length 4
  let bytes ← mul 64 (padded / 4) 4
  let next ← add 64 start bytes
  return (⟨first, size, name.toList⟩, next)

/-- Take in a stream of metadata whose root is at `root`. -/
def takeStream (data : Bytes) (root : Nat) (found : Streams) (header : StreamHeader) :
    Checked Streams := do
  let place ← add 64 root header.offset
  let body ← slice data place header.size
  if header.name = Streams.nameBytes "#~" then
    let tables ← add 64 root header.offset
    return { found with tables := some tables }
  else if header.name = Streams.nameBytes "#-" then
    throw (.fault (.unsupported .editTables))
  else if header.name = Streams.nameBytes "#Strings" then
    return { found with strings := body }
  else if header.name = Streams.nameBytes "#Blob" then
    return { found with blobs := body }
  else
    return found

/-- Take in `count` streams whose headers begin at `offset`. -/
def readStreamsFrom (data : Bytes) (root : Nat) : (count offset : Nat) → Streams → Checked Streams
  | 0, _, found => .ok found
  | count + 1, offset, found => do
    let (header, next) ← readStreamHeader data offset
    let found ← takeStream data root found header
    readStreamsFrom data root count next found

/-- The streams of the metadata whose root is at `root`. -/
def readStreams (data : Bytes) (root : Nat) : Checked Streams := do
  let mark ← number data root 4
  if mark ≠ Metadata.signature then
    throw (.fault (.notManaged .missingMetadataSignature))
  let versionLength ← numberAt data root 12 4
  let version ← add 64 root 16
  let afterVersion ← add 64 version versionLength
  let count ← numberAt data afterVersion 2 2
  let first ← add 64 afterVersion 4
  readStreamsFrom data root count first Streams.empty

/-- Read the metadata whose root is at `root`. -/
def readMetadata (data : Bytes) (root : Nat) : Checked Metadata := do
  let streams ← readStreams data root
  match streams.tables with
  | none => throw (.fault (.notManaged .noTableStream))
  | some start =>
    let layout ← readLayout data start
    return ⟨data, layout, streams.strings, streams.blobs⟩

section Streams

variable {data : Bytes} {root : Nat}

theorem nameLength_eq (hdata : data.size < 2 ^ 32) {start : Nat} (hstart : start < 2 ^ 63)
    {rounds limit length : Nat} (hrounds : limit < rounds)
    (hlimit : limit + length = Metadata.maxStreamName) :
    nameLength data start rounds length =
      lift (Metadata.readStreamName data limit (start + length) >>= fun name =>
        .ok (length + name.length)) := by
  induction rounds generalizing limit length with
  | zero => omega
  | succ rounds ih =>
    -- the rounds do not run out before the longest name has been passed
    have hlength : length ≤ 32 := by
      rw [Metadata.maxStreamName] at hlimit
      omega
    rw [nameLength, Metadata.readStreamName.eq_def, byteAt_eq hdata (by omega), bind_assoc]
    refine bind_eq_lift rfl fun b _ => ?_
    by_cases hzero : b = 0
    · rw [if_pos hzero, if_pos hzero]
      rfl
    · rw [if_neg hzero, if_neg hzero, add_eq (by omega), Reading.ok_bind]
      cases limit with
      | zero =>
        rw [if_pos (by omega)]
        rfl
      | succ limit =>
        rw [if_neg (by omega), @ih limit (length + 1) (by omega) (by omega)]
        dsimp only
        rw [bind_assoc, Nat.add_assoc start length 1]
        rcases Metadata.readStreamName data limit (start + (length + 1)) with _ | rest
        · rfl
        · exact congrArg Except.ok (by rw [List.length_cons]; omega)

/-- A byte that was read stands at its place. -/
theorem lt_of_byte {offset : Nat} {b : UInt8} (h : data.byte offset = .ok b) :
    offset < data.size ∧ data.toList.drop offset = b :: data.toList.drop (offset + 1) := by
  by_cases hlt : offset < data.size
  · rw [Bytes.byte, Array.getElem?_eq_getElem hlt] at h
    cases h
    exact ⟨hlt, drop_toList hlt⟩
  · rw [Bytes.byte, Array.getElem?_eq_none (Nat.le_of_not_lt hlt)] at h
    cases h

/-- The bytes of a stream name are those that stand at its place. -/
theorem slice_of_readStreamName {limit offset : Nat} {name : List UInt8}
    (h : Metadata.readStreamName data limit offset = .ok name) :
    offset + name.length ≤ data.size ∧ (data.toList.drop offset).take name.length = name := by
  induction limit generalizing offset name with
  | zero =>
    rw [Metadata.readStreamName, Reading.bind_eq_ok_iff] at h
    obtain ⟨b, hb, h⟩ := h
    split at h
    · cases h
      exact ⟨Nat.le_of_lt (lt_of_byte hb).1, List.take_zero⟩
    · cases h
  | succ limit ih =>
    rw [Metadata.readStreamName, Reading.bind_eq_ok_iff] at h
    obtain ⟨b, hb, h⟩ := h
    -- one byte of the name after another, up to the terminator
    obtain ⟨hlt, hdrop⟩ := lt_of_byte hb
    split at h
    · cases h
      exact ⟨Nat.le_of_lt hlt, List.take_zero⟩
    · simp only [Reading.bind_eq_ok_iff, Reading.pure_eq_ok_iff] at h
      obtain ⟨rest, hrest, rfl⟩ := h
      obtain ⟨hle, htake⟩ := ih hrest
      rw [List.length_cons, hdrop, List.take_succ_cons, htake]
      exact ⟨by omega, rfl⟩

theorem readStreamHeader_eq (hdata : data.size < 2 ^ 32) (offset : Nat) :
    readStreamHeader data offset = lift (StreamHeader.read data offset) := by
  rw [readStreamHeader, StreamHeader.read, number_eq hdata]
  refine bind_eq_lift rfl fun first hfirst => ?_
  obtain ⟨hroom, -⟩ := Bytes.number_eq_ok_iff.1 hfirst
  rw [numberAt_eq hdata (by omega)]
  refine bind_eq_lift rfl fun size _ => ?_
  rw [add_eq (by omega), Reading.ok_bind,
    nameLength_eq hdata (by omega) (Nat.lt_succ_self _) (Nat.add_zero _), Nat.add_zero]
  rcases hname : Metadata.readStreamName data Metadata.maxStreamName (offset + 8) with _ | name
  · rfl
  obtain ⟨hle, htake⟩ := slice_of_readStreamName hname
  rw [Reading.ok_bind, lift_ok, Reading.ok_bind, Nat.zero_add, slice_eq hdata, Bytes.slice,
    if_pos hle,
    lift_ok, Reading.ok_bind, add_eq (by omega), Reading.ok_bind, mul_eq (by omega),
    Reading.ok_bind, add_eq (by omega), Reading.ok_bind]
  -- the name that was measured is taken out of the data as a slice
  have hbytes : (data.extract (offset + 8) (offset + 8 + name.length)).toList = name := by
    rw [Array.toList_extract, List.extract_eq_take_drop, Nat.add_sub_cancel_left, htake]
  rw [hbytes]
  rfl

theorem takeStream_eq (hdata : data.size < 2 ^ 32) (hroot : root < 2 ^ 33) {header : StreamHeader}
    (hheader : header.offset < 2 ^ 32) (found : Streams) :
    takeStream data root found header = lift (found.add data root header) := by
  rw [takeStream, Streams.add, add_eq (by omega), Reading.ok_bind, slice_eq hdata]
  refine bind_eq_lift rfl fun body _ => ?_
  refine ite_eq_lift (fun _ => rfl) fun _ => ite_eq_lift (fun _ => rfl) fun _ => ?_
  exact ite_eq_lift (fun _ => rfl) fun _ => ite_eq_lift (fun _ => rfl) fun _ => rfl

theorem readStreamsFrom_eq (hdata : data.size < 2 ^ 32) (hroot : root < 2 ^ 33)
    (count offset : Nat) (found : Streams) :
    readStreamsFrom data root count offset found =
      lift (Streams.readFrom data root count offset found) := by
  induction count generalizing offset found with
  | zero => rfl
  | succ count ih =>
    rw [readStreamsFrom, Streams.readFrom, readStreamHeader_eq hdata]
    refine bind_eq_lift rfl fun read hread => ?_
    obtain ⟨header, next⟩ := read
    have hheader := number_four_lt (StreamHeader.read_eq_ok_iff.1 hread).1
    dsimp only
    rw [takeStream_eq hdata hroot hheader]
    exact bind_eq_lift rfl fun found _ => ih next found

theorem readStreams_eq (hdata : data.size < 2 ^ 32) (hroot : root < 2 ^ 33) :
    readStreams data root = lift (Streams.read data root) := by
  rw [readStreams, Streams.read, number_eq hdata]
  refine bind_eq_lift rfl fun mark _ => ite_eq_lift (fun _ => rfl) fun _ => ?_
  rw [numberAt_eq hdata (by omega)]
  refine bind_eq_lift rfl fun versionLength hversion => ?_
  have hversion := number_four_lt hversion
  rw [add_eq (by omega), Reading.ok_bind, add_eq (by omega), Reading.ok_bind,
    numberAt_eq hdata (by omega)]
  refine bind_eq_lift rfl fun count _ => ?_
  rw [add_eq (by omega), Reading.ok_bind]
  exact readStreamsFrom_eq hdata hroot count _ _

/-- The table stream lies in the data. -/
theorem tables_le {streams : Streams} {start : Nat} (h : Streams.read data root = .ok streams)
    (htables : streams.tables = some start) : start ≤ data.size := by
  obtain ⟨-, found, stop, -, hfound⟩ := Streams.read_eq_ok_iff.1 h
  obtain ⟨hall, rfl⟩ := Streams.foldlM_add_eq_ok_iff.1 hfound
  obtain ⟨header, hheader, rfl⟩ := Option.map_eq_some_iff.1 htables
  have hmem := List.mem_reverse.1 (List.mem_of_find?_eq_some hheader)
  have hroom := (hall header hmem).1
  omega

theorem readMetadata_eq (hdata : data.size < 2 ^ 32) (hroot : root < 2 ^ 33) :
    readMetadata data root = lift (Metadata.read data root) := by
  rw [readMetadata, Metadata.read, readStreams_eq hdata hroot]
  refine bind_eq_lift rfl fun streams hstreams => ?_
  rcases htables : streams.tables with _ | start
  · rfl
  have hstart := tables_le hstreams htables
  dsimp only
  rw [readLayout_eq hdata (by omega)]
  exact bind_eq_lift rfl fun layout _ => rfl

end Streams

/-! ### Heaps -/

/-- The bytes from `first` up to `stop`. -/
def part (data : Bytes) (first stop : Nat) : Checked Bytes :=
  if first ≤ stop ∧ stop ≤ data.size then .ok (data.extract first stop)
  else .error (.trap .index)

/-- The string at an index of the string heap. -/
def string (strings : Bytes) (start : Nat) : Checked String :=
  if start = 0 ∧ strings.size = 0 then .ok ""
  else if strings.size < start then .error (.fault (.malformed (.stringOutside start)))
  else do
    let tail := strings.extract start strings.size
    match tail.toList.findIdx? fun b => b == 0 with
    | none => throw (.fault (.malformed (.stringUnterminated start)))
    | some stop =>
      let text ← part tail 0 stop
      match String.fromUTF8? ⟨text⟩ with
      | none => throw (.fault (.malformed (.stringNotUtf8 start)))
      | some text => return text

/-- The bytes at an index of the blob heap, behind their compressed length. -/
def blob (blobs : Bytes) (start : Nat) : Checked Bytes :=
  if start = 0 ∧ blobs.size = 0 then .ok #[]
  else if blobs.size < start then .error (.fault (.malformed (.blobOutside start)))
  else do
    let tail := blobs.extract start blobs.size
    let (length, c) ← Cursor.compressed ⟨tail, 0⟩
    slice tail c.position length

section Heaps

variable {strings blobs : Bytes}

theorem findZero_eq {limit offset : Nat} (h : offset + limit = strings.size) :
    Metadata.findZero strings limit offset =
      ((strings.toList.drop offset).findIdx? fun b => b == 0).map (offset + ·) := by
  induction limit generalizing offset with
  | zero =>
    rw [Metadata.findZero, List.drop_eq_nil_of_le (by rw [Array.length_toList]; omega)]
    rfl
  | succ limit ih =>
    have hlt : offset < strings.size := by omega
    -- the byte at the offset is the first one of those that are left
    rw [Metadata.findZero, drop_toList hlt, List.findIdx?_cons, Array.getElem?_eq_getElem hlt,
      ih (by omega)]
    by_cases hzero : strings[offset] = 0
    · simp [hzero]
    · simp [hzero, Option.map_map, Function.comp_def, Nat.add_assoc, Nat.add_comm 1]

/-- What stands behind a place of a heap. -/
theorem toList_tail (heap : Bytes) (start : Nat) :
    (heap.extract start heap.size).toList = heap.toList.drop start := by
  rw [Array.toList_extract, List.extract_eq_take_drop, List.take_of_length_le]
  rw [List.length_drop, Array.length_toList]

theorem string_eq (md : Metadata) (start : Nat) :
    string md.strings start = lift (md.string start) := by
  rw [string, Metadata.string]
  refine ite_eq_lift (fun _ => rfl) fun _ => ite_eq_lift (fun _ => rfl) fun hle => ?_
  have hsize : start + (md.strings.size - start) = md.strings.size := by omega
  dsimp only
  rw [findZero_eq hsize, toList_tail]
  rcases hfound : (md.strings.toList.drop start).findIdx? (fun b => b == 0) with _ | stop
  · rfl
  -- the zero stands in the tail, so that the tail can be cut off there
  have hstop : stop < md.strings.size - start := by
    rw [← Array.length_toList, ← List.length_drop]
    exact (List.findIdx?_eq_some_iff_getElem.1 hfound).1
  have htail : stop ≤ (md.strings.extract start md.strings.size).size := by
    rw [Array.size_extract]
    omega
  dsimp only [Option.map_some]
  rw [part, if_pos ⟨Nat.zero_le _, htail⟩, Reading.ok_bind, Array.extract_extract]
  have hcut : min (start + stop) md.strings.size = start + stop := by omega
  rw [Nat.add_zero, hcut]
  rcases String.fromUTF8? ⟨md.strings.extract start (start + stop)⟩ with _ | text
  · rfl
  · rfl

/-- A compressed integer is read from the first four bytes alone. -/
theorem compressed_take (bytes : List UInt8) :
    (PublicAssembly.Cursor.start (bytes.take 4)).compressed =
      (PublicAssembly.Cursor.start bytes).compressed.map fun found =>
        (found.1, ⟨found.2.position, (bytes.take 4).drop found.2.position⟩) := by
  rcases bytes with _ | ⟨b₀, _ | ⟨b₁, _ | ⟨b₂, _ | ⟨b₃, rest⟩⟩⟩⟩
  case nil => rfl
  all_goals
    simp only [PublicAssembly.Cursor.start, PublicAssembly.Cursor.compressed, List.take_succ_cons,
      List.take_nil, List.take_zero]
    repeat' split
    all_goals rfl

theorem blob_eq {md : Metadata} (hblobs : md.blobs.size < 2 ^ 32) (start : Nat) :
    blob md.blobs start = lift (md.blob start) := by
  rw [blob, Metadata.blob]
  refine ite_eq_lift (fun _ => rfl) fun _ => ite_eq_lift (fun _ => rfl) fun hle => ?_
  have hsize : (md.blobs.extract start md.blobs.size).size = md.blobs.size - start := by
    rw [Array.size_extract, Nat.min_self]
  have hread := (@agrees_compressed (md.blobs.extract start md.blobs.size) (by omega) 0).eq_lift
  have htake :
      (md.blobs.extract start (start + 4)).toList = (md.blobs.toList.drop start).take 4 := by
    rw [Array.toList_extract, List.extract_eq_take_drop, Nat.add_sub_cancel_left]
  rw [plainAt, toList_tail, List.drop_zero] at hread
  dsimp only
  rw [hread, htake, compressed_take, PublicAssembly.Cursor.start]
  rcases (⟨0, md.blobs.toList.drop start⟩ : PublicAssembly.Cursor).compressed with
    cause | ⟨length, c⟩
  · rfl
  -- the blob lies in the tail if it lies in the heap
  dsimp only [Except.map, lift_ok, Reading.ok_bind, id]
  rw [slice_eq (by omega), Bytes.slice, hsize]
  by_cases hroom : start + c.position + length ≤ md.blobs.size
  · rw [if_pos (by omega), if_pos hroom, Array.extract_extract,
      ← Nat.add_assoc, Nat.min_eq_left hroom]
  · rw [if_neg (by omega), if_neg hroom]

/-- A blob lies in the heap. -/
theorem size_blob_le {md : Metadata} {start : Nat} {found : Bytes} (h : md.blob start = .ok found) :
    found.size ≤ md.blobs.size := by
  rw [Metadata.blob] at h
  split at h
  · cases h
    exact Nat.zero_le _
  · rw [Reading.ite_error_eq_ok_iff] at h
    obtain ⟨-, h⟩ := h
    split at h
    · cases h
    · dsimp only at h
      split at h
      · cases h
        rw [Array.size_extract]
        omega
      · cases h

end Heaps

/-! ### Images -/

/-- Read the headers and the metadata of a file. -/
def readImage (data : Bytes) : Checked Image := do
  let headers ← readHeaders data
  let root ← metadataOffset headers data
  let metadata ← readMetadata data root
  return ⟨data, headers, metadata⟩

/-- The number stored in a cell: in two bytes or else in four. -/
def cell (md : Metadata) (table : Table) (row column : Nat) : Checked Nat := do
  let (place, width) ← placeOf md.layout table row column
  if width = 2 then
    number md.data place 2
  else
    number md.data place 4

/-- The string that a cell names. -/
def cellString (md : Metadata) (table : Table) (row column : Nat) : Checked String := do
  let start ← cell md table row column
  string md.strings start

/-- A computation whose fault is forgotten. What stops the machine is not. -/
def orNone {α : Type} (checked : Checked α) : Checked (Option α) :=
  match checked with
  | .ok a => .ok (some a)
  | .error (.fault _) => .ok none
  | .error (.lapse _) => .ok none
  | .error stop => .error stop

/-- The full name of a type of this module or another one. -/
def typeName (md : Metadata) (table : Table) (row : Nat) : Checked (Option String) :=
  if table = Table.typeDef ∨ table = Table.typeRef then do
    match ← orNone (cellString md table row 1) with
    | none => return none
    | some name =>
      match ← orNone (cellString md table row 2) with
      | none => return none
      | some space => return some (if space.isEmpty then name else space ++ "." ++ name)
  else .ok none

/-- The method body at an address, and its code. -/
def bodyAt (image : Image) (rva : Nat) : Checked (Image.Body × Bytes) := do
  let offset ← offsetIn rva image.headers.sections
  readBody image.data offset

/-- The numbers of an image fit into words. -/
structure ImageFits (image : Image) : Prop where
  /-- The file is not too large. -/
  data : image.data.size < 2 ^ 32
  /-- The metadata are those of the file. -/
  same : image.metadata.data = image.data
  /-- What the headers say fits. -/
  headers : HeadersFit image.headers
  /-- The tables lie in the file. -/
  layout : LayoutFits image.data image.metadata.layout
  /-- The blob heap lies in the file. -/
  blobs : image.metadata.blobs.size < 2 ^ 32

section Images

variable {data : Bytes} {image : Image}

theorem readImage_eq (hdata : data.size < 2 ^ 32) : readImage data = lift (Image.read data) := by
  rw [readImage, Image.read, readHeaders_eq hdata]
  refine bind_eq_lift rfl fun headers hheaders => ?_
  have hfit := headersFit hheaders
  rw [metadataOffset_eq hdata hfit]
  refine bind_eq_lift rfl fun root hroot => ?_
  rw [readMetadata_eq hdata (metadataOffset_lt hfit hroot)]
  exact bind_eq_lift rfl fun metadata _ => rfl

theorem size_heap_le (root : Nat) (found : List StreamHeader) (name : String) :
    (Streams.heap data root found name).size ≤ data.size := by
  rw [Streams.heap]
  split
  · exact Nat.zero_le _
  · rw [Array.size_extract]
    omega

theorem imageFits (hdata : data.size < 2 ^ 32) (h : Image.read data = .ok image) :
    ImageFits image := by
  obtain ⟨root, metadata, hheaders, -, hmetadata, himage⟩ := Image.read_eq_ok_iff.1 h
  obtain ⟨streams, start, layout, hstreams, -, hlayout, rfl⟩ := Metadata.read_eq_ok_iff.1 hmetadata
  obtain ⟨-, found, stop, -, hfound⟩ := Streams.read_eq_ok_iff.1 hstreams
  obtain ⟨-, rfl⟩ := Streams.foldlM_add_eq_ok_iff.1 hfound
  have hfit := headersFit hheaders
  rw [himage]
  exact ⟨hdata, rfl, hfit, layoutFits hlayout, Nat.lt_of_le_of_lt (size_heap_le root found _) hdata⟩

variable {table : Table} {row column : Nat}

theorem cell_eq (hfits : ImageFits image) (table : Table) (row column : Nat) :
    cell image.metadata table row column = lift (image.cell table row column) := by
  rw [cell, Image.cell, Metadata.cell, placeOf_eq hfits.data hfits.layout]
  refine bind_eq_lift rfl fun found hfound => ?_
  obtain ⟨place, width⟩ := found
  dsimp only
  rw [hfits.same, number_eq hfits.data, number_eq hfits.data]
  rcases hfits.layout.width hfound with rfl | rfl
  · rfl
  · rfl

theorem cellString_eq (hfits : ImageFits image) (table : Table) (row column : Nat) :
    cellString image.metadata table row column = lift (image.cellString table row column) := by
  rw [cellString, Image.cellString, cell_eq hfits]
  exact bind_eq_lift rfl fun start _ => string_eq image.metadata start

theorem typeName_eq (hfits : ImageFits image) (table : Table) (row : Nat) :
    typeName image.metadata table row = .ok (image.typeName table row) := by
  rw [typeName, Image.typeName, cellString_eq hfits, cellString_eq hfits]
  split
  · rcases image.cellString table row 1 with _ | name
    · rfl
    · rcases image.cellString table row 2 with _ | space
      · rfl
      · rfl
  · rfl

theorem bodyAt_eq (hfits : ImageFits image) {rva : Nat} (hrva : rva < 2 ^ 32) :
    bodyAt image rva = lift (image.bodyAt rva) := by
  rw [bodyAt, Image.bodyAt, offsetIn_eq hfits.headers hrva]
  refine bind_eq_lift rfl fun offset hoffset => ?_
  exact readBody_eq hfits.data (offsetOf_lt hfits.headers hrva hoffset)

/-- A cell holds a word of 32 bits. -/
theorem cell_lt (hfits : ImageFits image) {n : Nat} (h : image.cell table row column = .ok n) :
    n < 2 ^ 32 := by
  obtain ⟨place, width, hplace, hnumber⟩ := Image.cell_eq_ok_iff.1 h
  rcases hfits.layout.width hplace with rfl | rfl
  · exact Nat.lt_trans (number_two_lt hnumber) (by decide)
  · exact number_four_lt hnumber

/-- A cell of a column of two bytes holds a word of 16 bits. -/
theorem cell_word_lt (hfits : ImageFits image) (htable : table < Table.count)
    (hcolumn : (Metadata.columns table)[column]? = some .word) {n : Nat}
    (h : image.cell table row column = .ok n) : n < 2 ^ 16 := by
  obtain ⟨place, width, hplace, hnumber⟩ := Image.cell_eq_ok_iff.1 h
  obtain rfl := hfits.layout.word htable hcolumn hplace
  exact number_two_lt hnumber

/-- A table has less than 2 ^ 31 rows. -/
theorem rows_lt (hfits : ImageFits image) (table : Table) : image.rows table < 2 ^ 31 := by
  have hrows := hfits.layout.rows table
  have hdata := hfits.data
  rw [Image.rows, Metadata.rows]
  omega

end Images

end PublicAssembly.Machine
