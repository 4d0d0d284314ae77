import PublicAssembly.Proofs.Metadata.Streams

/-!
# The bytes of the metadata root

The metadata root stores the number of its streams and then their headers. A header ends with a name
of any length, so where one begins depends on all names before it: after the terminator, bytes fill
up the header to a multiple of four. The headers are found nevertheless, whatever the names and
the version are, and a root with a header that is not whole, whose name is too long or whose stream
does not lie in the data is no metadata. What fills up the last header is never looked at, and the
data may end in front of it.

## Main definitions

* `Bytes.Holds`: some bytes are in the data at a place;
* `Metadata.StoredStream`, `Metadata.StoredRoot`: a stream header and a metadata root as they are
  stored;
* `Metadata.LacksHeader`: no whole stream header with a short name is at a place.

## Main statements

* `Metadata.readStreamName_eq_ok_iff`: what it takes to read a stream name;
* `Metadata.StoredStream.headers_of_holds`: stored headers are read one after another;
* `Metadata.read_storedRoot`: what is read of a stored root.
-/

namespace PublicAssembly

open Image (Fault)
open Reading

/-! ### Bytes at a place -/

namespace Bytes

variable {data : Bytes} {offset : Nat} {bytes : List UInt8}

/-- The given bytes are in the data from `offset` on. -/
def Holds (data : Bytes) (offset : Nat) (bytes : List UInt8) : Prop :=
  bytes <+: data.toList.drop offset

instance (data : Bytes) (offset : Nat) (bytes : List UInt8) : Decidable (data.Holds offset bytes) :=
  inferInstanceAs (Decidable (_ <+: _))

@[simp]
theorem holds_nil (data : Bytes) (offset : Nat) : data.Holds offset [] :=
  List.nil_prefix

/-- Bytes are at a place if the first of them are, and the others behind these. -/
theorem holds_append_iff {front rest : List UInt8} :
    data.Holds offset (front ++ rest) ↔
      data.Holds offset front ∧ data.Holds (offset + front.length) rest := by
  rw [Holds, Holds, Holds, ← List.drop_drop]
  constructor
  · rintro ⟨more, hmore⟩
    rw [← hmore, List.append_assoc]
    exact ⟨List.prefix_append _ _, by rw [List.drop_left]; exact List.prefix_append _ _⟩
  · rintro ⟨⟨more, hmore⟩, hrest⟩
    rw [← hmore, List.drop_left] at hrest
    rw [← hmore]
    exact (List.prefix_append_right_inj front).2 hrest

/-- A first byte is at a place, and the others behind it. -/
theorem holds_cons_iff {b : UInt8} :
    data.Holds offset (b :: bytes) ↔ data[offset]? = some b ∧ data.Holds (offset + 1) bytes := by
  rw [← List.singleton_append, holds_append_iff, List.length_singleton]
  refine and_congr_left' ?_
  rw [Holds, ← Array.getElem?_toList, ← List.head?_drop]
  cases data.toList.drop offset <;> simp [eq_comm]

/-- What is at each place of some bytes in the data. -/
theorem Holds.getElem?_eq (h : data.Holds offset bytes) {i : Nat} (hi : i < bytes.length) :
    data[offset + i]? = bytes[i]? := by
  rw [← Array.getElem?_toList, ← List.getElem?_drop, List.getElem?_eq_getElem hi]
  exact List.prefix_iff_getElem?.1 h i hi

/-- Bytes that are at a place lie in the data. -/
theorem Holds.le_size (h : data.Holds offset bytes) (hne : bytes ≠ []) :
    offset + bytes.length ≤ data.size := by
  have hlength := h.length_le
  have hpos := List.length_pos_of_ne_nil hne
  have hsize : data.toList.length = data.size := Array.length_toList
  rw [List.length_drop] at hlength
  omega

/-- A byte that is at a place is read there. -/
theorem byte_eq_ok_iff {b : UInt8} : data.byte offset = .ok b ↔ data[offset]? = some b := by
  rw [byte]
  cases data[offset]? <;> simp

/-- A number whose bytes are at a place is read there. -/
theorem Holds.number_eq {value width : Nat} (h : data.Holds offset (littleEndianBytes width value))
    (hwidth : 0 < width) (hvalue : value < 2 ^ (8 * width)) :
    data.number offset width = .ok value := by
  have hne : littleEndianBytes width value ≠ [] := by
    rw [← List.length_pos_iff, length_littleEndianBytes]
    exact hwidth
  have hroom := h.le_size hne
  rw [length_littleEndianBytes] at hroom
  rw [number_of_bytes value hroom fun i hle hlt => ?_, Nat.one_shiftLeft, Nat.mod_eq_of_lt hvalue]
  rw [← h.getElem?_eq (by rw [length_littleEndianBytes]; omega), Nat.add_sub_cancel' hle]

end Bytes

namespace Metadata

variable {data : Bytes} {root offset : Nat}

/-! ### Stored headers -/

/-- A stream has no name if the terminator comes first. -/
theorem readStreamName_eq_nil_iff {limit : Nat} :
    readStreamName data limit offset = .ok [] ↔ data[offset]? = some 0 := by
  rw [readStreamName.eq_def, ← Bytes.byte_eq_ok_iff, bind_eq_ok_iff]
  constructor
  · rintro ⟨b, hb, h⟩
    by_cases hzero : b = 0
    · rw [hb, hzero]
    · cases limit <;> simp [hzero] at h
  · exact fun hb => ⟨0, hb, if_pos rfl⟩

/-- A stream name goes on behind a byte other than the terminator, unless it is too long. -/
theorem readStreamName_eq_cons_iff {limit : Nat} {b : UInt8} {rest : List UInt8} :
    readStreamName data limit offset = .ok (b :: rest) ↔
      data[offset]? = some b ∧ b ≠ 0 ∧
        ∃ less, limit = less + 1 ∧ readStreamName data less (offset + 1) = .ok rest := by
  rw [readStreamName.eq_def, ← Bytes.byte_eq_ok_iff, bind_eq_ok_iff]
  cases limit with
  | zero =>
    -- at the limit there is the terminator or an error
    refine iff_of_false ?_ (by simp)
    rintro ⟨c, -, h⟩
    by_cases hzero : c = 0 <;> simp [hzero] at h
  | succ limit =>
    constructor
    · rintro ⟨c, hc, h⟩
      by_cases hzero : c = 0
      · simp [hzero] at h
      · simp only [hzero, if_false, bind_eq_ok_iff, pure_eq_ok_iff, List.cons.injEq] at h
        obtain ⟨_, hrest, rfl, rfl⟩ := h
        exact ⟨hc, hzero, limit, rfl, hrest⟩
    · rintro ⟨hb, hzero, less, hless, hrest⟩
      cases hless
      exact ⟨b, hb, by simp [hzero, hrest]⟩

/-- What it takes to read a stream name: the name with its terminator is there, and it is not too
long. -/
theorem readStreamName_eq_ok_iff {limit : Nat} {name : List UInt8} :
    readStreamName data limit offset = .ok name ↔
      data.Holds offset (name ++ [0]) ∧ 0 ∉ name ∧ name.length ≤ limit := by
  -- by induction on the name, since what may still come gets shorter with it
  induction name generalizing limit offset with
  | nil => simp [readStreamName_eq_nil_iff, Bytes.holds_cons_iff]
  | cons b rest ih =>
    simp only [readStreamName_eq_cons_iff, ih, List.cons_append, Bytes.holds_cons_iff,
      List.mem_cons, List.length_cons, not_or]
    constructor
    · rintro ⟨hb, hzero, less, rfl, hholds, hrest, hlength⟩
      exact ⟨⟨hb, hholds⟩, ⟨Ne.symm hzero, hrest⟩, Nat.succ_le_succ hlength⟩
    · rintro ⟨⟨hb, hholds⟩, ⟨hzero, hrest⟩, hlength⟩
      obtain ⟨less, rfl⟩ := Nat.exists_eq_add_of_le' (Nat.le_of_add_left_le hlength)
      exact ⟨hb, Ne.symm hzero, less, rfl, hholds, hrest, Nat.le_of_succ_le_succ hlength⟩

/-- The bytes of a stream header up to the terminator of its name. -/
def StreamHeader.bytes (header : StreamHeader) : List UInt8 :=
  Bytes.littleEndianBytes 4 header.offset ++ Bytes.littleEndianBytes 4 header.size ++
    (header.name ++ [0])

/-- A stream header as it is stored, with the bytes that fill it up. -/
structure StoredStream extends StreamHeader where
  /-- What fills up the header. -/
  padding : List UInt8
  /-- The offset fits into four bytes. -/
  offset_lt : offset < 2 ^ 32
  /-- The size fits into four bytes. -/
  size_lt : size < 2 ^ 32
  /-- The name ends at its terminator. -/
  zero_not_mem : 0 ∉ name
  /-- The name is not too long. -/
  length_name_le : name.length ≤ maxStreamName
  /-- Nothing more fills up the header than is needed. -/
  length_padding_lt : padding.length < 4
  /-- The header is filled up to a multiple of four bytes. -/
  aligned : 4 ∣ name.length + 1 + padding.length

namespace StoredStream

/-- A header that is filled up with zeros. -/
def ofHeader (header : StreamHeader) (hoffset : header.offset < 2 ^ 32) (hsize : header.size < 2 ^ 32)
    (hzero : 0 ∉ header.name) (hlength : header.name.length ≤ maxStreamName) : StoredStream where
  toStreamHeader := header
  padding := List.replicate (3 - header.name.length % 4) 0
  offset_lt := hoffset
  size_lt := hsize
  zero_not_mem := hzero
  length_name_le := hlength
  length_padding_lt := by
    rw [List.length_replicate]
    omega
  aligned := by
    rw [List.length_replicate]
    omega

/-- The number of bytes of a header with what fills it up. -/
def length (stream : StoredStream) : Nat :=
  stream.bytes.length + stream.padding.length

/-- The bytes of some headers. What fills up the last one is not among them. -/
def listBytes : List StoredStream → List UInt8
  | [] => []
  | [stream] => stream.bytes
  | stream :: next :: rest => stream.bytes ++ stream.padding ++ listBytes (next :: rest)

/-- The number of bytes of some headers with what fills them up. -/
def listLength (streams : List StoredStream) : Nat :=
  (streams.map length).sum

theorem listLength_cons (stream : StoredStream) (rest : List StoredStream) :
    listLength (stream :: rest) = stream.length + listLength rest :=
  List.sum_cons

/-- A name with its terminator and what fills up the header has the size that is skipped. -/
theorem paddedNameSize_eq (stream : StoredStream) :
    paddedNameSize stream.name.length = stream.name.length + 1 + stream.padding.length := by
  have hlt := stream.length_padding_lt
  obtain ⟨words, hwords⟩ := stream.aligned
  rw [paddedNameSize]
  omega

/-- A header that is in the data is read, and the next one begins where it is filled up. -/
theorem read_of_holds (stream : StoredStream) (h : data.Holds offset stream.bytes) :
    StreamHeader.read data offset = .ok (stream.toStreamHeader, offset + stream.length) := by
  rw [StreamHeader.bytes, Bytes.holds_append_iff, Bytes.holds_append_iff, List.length_append,
    Bytes.length_littleEndianBytes, Bytes.length_littleEndianBytes] at h
  obtain ⟨⟨hoffset, hsize⟩, hname⟩ := h
  refine StreamHeader.read_eq_ok_iff.2 ⟨hoffset.number_eq (by decide) stream.offset_lt,
    hsize.number_eq (by decide) stream.size_lt,
    readStreamName_eq_ok_iff.2 ⟨hname, stream.zero_not_mem, stream.length_name_le⟩, ?_⟩
  rw [paddedNameSize_eq, length, StreamHeader.bytes]
  simp only [List.length_append, Bytes.length_littleEndianBytes, List.length_singleton]
  omega

/-- The first of some headers is in the data, and the others behind what fills it up. -/
theorem holds_of_listBytes_cons {stream : StoredStream} {rest : List StoredStream}
    (h : data.Holds offset (listBytes (stream :: rest))) :
    data.Holds offset stream.bytes ∧ data.Holds (offset + stream.length) (listBytes rest) := by
  cases rest with
  | nil => exact ⟨h, Bytes.holds_nil _ _⟩
  | cons next rest =>
    rw [listBytes, Bytes.holds_append_iff, List.length_append] at h
    exact ⟨(Bytes.holds_append_iff.1 h.1).1, h.2⟩

/-- Headers that are in the data are read one after another, and then what follows them. -/
theorem headers_of_holds {streams : List StoredStream} (h : data.Holds offset (listBytes streams))
    (more : Nat) :
    Streams.headers data (streams.length + more) offset =
      (fun rest => (streams.map (·.toStreamHeader) ++ rest.1, rest.2)) <$>
        Streams.headers data more (offset + listLength streams) := by
  induction streams generalizing offset with
  | nil => simp [listLength]
  | cons stream rest ih =>
    -- the header is read up to where the next one begins, however long its name is
    obtain ⟨hfirst, hrest⟩ := holds_of_listBytes_cons h
    rw [List.length_cons, Nat.add_right_comm, Streams.headers, read_of_holds stream hfirst, ok_bind]
    dsimp only
    rw [ih hrest, listLength_cons, ← Nat.add_assoc]
    cases Streams.headers data more (offset + stream.length + listLength rest) <;> rfl

end StoredStream

/-! ### The stored root -/

/-- A metadata root as it is stored, with the first of the streams whose number it tells. -/
structure StoredRoot where
  /-- The bytes behind the mark, which mean nothing. -/
  reserved : List UInt8
  /-- The bytes of the version. -/
  version : List UInt8
  /-- The bytes of the flags. -/
  flags : List UInt8
  /-- The number of streams. -/
  count : Nat
  /-- The first streams, or all. -/
  streams : List StoredStream
  /-- Eight bytes mean nothing. -/
  length_reserved : reserved.length = 8
  /-- The number of bytes of the version fits into four bytes. -/
  length_version_lt : version.length < 2 ^ 32
  /-- The flags are two bytes. -/
  length_flags : flags.length = 2
  /-- The number of streams fits into two bytes. -/
  count_lt : count < 2 ^ 16
  /-- There are no more streams than the root tells. -/
  length_streams_le : streams.length ≤ count

namespace StoredRoot

/-- The bytes of a root with the first headers. What fills up the last one is not among them. -/
def bytes (stored : StoredRoot) : List UInt8 :=
  Bytes.littleEndianBytes 4 signature ++ stored.reserved ++
    Bytes.littleEndianBytes 4 stored.version.length ++ stored.version ++ stored.flags ++
    Bytes.littleEndianBytes 2 stored.count ++ StoredStream.listBytes stored.streams

/-- The number of bytes of a root with the first headers and what fills them up. -/
def length (stored : StoredRoot) : Nat :=
  20 + stored.version.length + StoredStream.listLength stored.streams

/-- What the first headers say. -/
def headers (stored : StoredRoot) : List StreamHeader :=
  stored.streams.map (·.toStreamHeader)

/-- What is read of a root that is in the data: its mark, and its headers one after another. -/
theorem listed_of_holds {stored : StoredRoot} (h : data.Holds root stored.bytes) :
    data.number root 4 = .ok signature ∧
      Streams.listed data root =
        (fun rest => (stored.headers ++ rest.1, rest.2)) <$>
          Streams.headers data (stored.count - stored.streams.length) (root + stored.length) := by
  simp only [bytes, Bytes.holds_append_iff, List.length_append, Bytes.length_littleEndianBytes,
    stored.length_reserved, stored.length_flags] at h
  obtain ⟨⟨⟨⟨⟨⟨hmark, -⟩, hlength⟩, -⟩, -⟩, hcount⟩, hstreams⟩ := h
  have hversion : data.number (root + 12) 4 = .ok stored.version.length :=
    hlength.number_eq (by decide) stored.length_version_lt
  have hnumber : data.number (root + 16 + stored.version.length + 2) 2 = .ok stored.count := by
    -- the reader counts from the version on, and the stored bytes from the root on
    have hplace : root + 16 + stored.version.length + 2 =
        root + (4 + 8 + 4 + stored.version.length + 2) := by omega
    rw [hplace]
    exact hcount.number_eq (by decide) stored.count_lt
  have hbegin : root + 16 + stored.version.length + 4 =
      root + (4 + 8 + 4 + stored.version.length + 2 + 2) := by omega
  have hend : root + stored.length =
      root + (4 + 8 + 4 + stored.version.length + 2 + 2) +
        StoredStream.listLength stored.streams := by
    rw [length]
    omega
  refine ⟨hmark.number_eq (by decide) (by decide), ?_⟩
  rw [Streams.listed, hversion, ok_bind, hnumber, ok_bind, hbegin, hend, headers,
    ← StoredStream.headers_of_holds hstreams, Nat.add_sub_cancel' stored.length_streams_le]

end StoredRoot

/-- At `offset` no header is whole with a name that is not too long. -/
inductive LacksHeader (data : Bytes) (offset : Nat) : Prop
  /-- The data end before the name. -/
  | short (h : data.size < offset + 8)
  /-- The data end before the terminator of the name. -/
  | unterminated (h : ∀ i, offset + 8 ≤ i → data[i]? ≠ some 0)
  /-- The name is too long. -/
  | tooLong (h : ∀ i ≤ maxStreamName, ∃ b, data[offset + 8 + i]? = some b ∧ b ≠ 0)

/-- A header that is not there cannot be read. -/
theorem LacksHeader.not_read (hlacks : LacksHeader data offset) {header : StreamHeader} {next : Nat} :
    StreamHeader.read data offset ≠ .ok (header, next) := by
  intro h
  obtain ⟨-, hsize, hname, -⟩ := StreamHeader.read_eq_ok_iff.1 h
  obtain ⟨hholds, -, hlength⟩ := readStreamName_eq_ok_iff.1 hname
  -- the terminator is where the name ends
  have hzero : data[offset + 8 + header.name.length]? = some 0 := by
    rw [Bytes.Holds.getElem?_eq hholds (by simp)]
    simp
  cases hlacks with
  | short hshort =>
    have hroom := (Bytes.number_eq_ok_iff.1 hsize).1
    omega
  | unterminated hnone => exact hnone _ (Nat.le_add_right _ _) hzero
  | tooLong hlong =>
    obtain ⟨b, hb, hne⟩ := hlong _ hlength
    rw [hzero, Option.some.injEq] at hb
    exact hne hb.symm

namespace StoredRoot

/-- If all headers are stored, and their streams can be taken in, then all of them are. -/
theorem read_of_whole (stored : StoredRoot) (h : data.Holds root stored.bytes)
    (hall : stored.streams.length = stored.count)
    (hstreams : ∀ stream ∈ stored.streams, root + stream.offset + stream.size ≤ data.size ∧
      stream.name ≠ Streams.nameBytes "#-") :
    Streams.listed data root = .ok (stored.headers, root + stored.length) ∧
      Streams.read data root = .ok ⟨(Streams.lastNamed stored.headers "#~").map (root + ·.offset),
        Streams.heap data root stored.headers "#Strings",
        Streams.heap data root stored.headers "#Blob"⟩ := by
  obtain ⟨hmark, hlisted⟩ := listed_of_holds h
  rw [hall, Nat.sub_self] at hlisted
  have hheaders : Streams.listed data root = .ok (stored.headers, root + stored.length) := by
    rw [hlisted, Streams.headers]
    simp
  refine ⟨hheaders, Streams.read_eq_ok_iff.2 ⟨hmark, _, _, hheaders,
    Streams.foldlM_add_eq_ok_iff.2 ⟨fun header hheader => ?_, rfl⟩⟩⟩
  obtain ⟨stream, hstream, rfl⟩ := List.mem_map.1 hheader
  exact hstreams stream hstream

/-- Metadata that are read have all stored streams in them, and as many headers more as the root
tells. -/
theorem exists_headers_of_read (stored : StoredRoot) (h : data.Holds root stored.bytes)
    {metadata : Metadata} (hread : Metadata.read data root = .ok metadata) :
    (∀ stream ∈ stored.streams, root + stream.offset + stream.size ≤ data.size) ∧
      ∃ found, Streams.headers data (stored.count - stored.streams.length)
        (root + stored.length) = .ok found := by
  obtain ⟨-, hlisted⟩ := listed_of_holds h
  obtain ⟨streams, -, -, hstreams, -⟩ := read_eq_ok_iff.1 hread
  obtain ⟨-, found, stop, hfound, htaken⟩ := Streams.read_eq_ok_iff.1 hstreams
  rw [hlisted, map_eq_ok_iff] at hfound
  obtain ⟨rest, hrest, hpair⟩ := hfound
  obtain ⟨rfl, rfl⟩ := Prod.mk.inj hpair
  refine ⟨fun stream hstream => ?_, rest, hrest⟩
  have hmem : stream.toStreamHeader ∈ stored.headers ++ rest.1 :=
    List.mem_append_left _ (List.mem_map_of_mem hstream)
  exact ((Streams.foldlM_add_eq_ok_iff.1 htaken).1 _ hmem).1

end StoredRoot

/-- What is read of a root in the data whose first headers are whole. If these are all, their
streams lie in the data and none is one of edited tables, then every header is read, the tables are
those of the last stream with their name, and so are the heaps. It is an error if a stream does not
lie in the data, or if the next header is not whole or has a name that is too long. -/
theorem read_storedRoot (stored : StoredRoot) (h : data.Holds root stored.bytes) :
    (stored.streams.length = stored.count →
      (∀ stream ∈ stored.streams, root + stream.offset + stream.size ≤ data.size ∧
        stream.name ≠ Streams.nameBytes "#-") →
      Streams.listed data root = .ok (stored.headers, root + stored.length) ∧
        Metadata.read data root =
          match Streams.lastNamed stored.headers "#~" with
          | none => .error (.notManaged .noTableStream)
          | some tables =>
            (fun layout => ⟨data, layout, Streams.heap data root stored.headers "#Strings",
              Streams.heap data root stored.headers "#Blob"⟩) <$>
              Layout.read data (root + tables.offset)) ∧
      ((∃ stream ∈ stored.streams, data.size < root + stream.offset + stream.size) →
        ∃ fault, Metadata.read data root = .error fault) ∧
      (stored.streams.length < stored.count → LacksHeader data (root + stored.length) →
        ∃ fault, Metadata.read data root = .error fault) := by
  refine ⟨fun hall hstreams => ?whole, fun houtside => ?outside, fun hless hlacks => ?lacking⟩
  case whole =>
    obtain ⟨hheaders, hread⟩ := stored.read_of_whole h hall hstreams
    refine ⟨hheaders, ?_⟩
    rw [Metadata.read, hread, ok_bind]
    cases Streams.lastNamed stored.headers "#~" with
    | none => rfl
    | some tables => cases Layout.read data (root + tables.offset) <;> rfl
  case outside =>
    obtain ⟨stream, hstream, hroom⟩ := houtside
    cases hread : Metadata.read data root with
    | error fault => exact ⟨fault, rfl⟩
    | ok metadata =>
      have hinside := (stored.exists_headers_of_read h hread).1 stream hstream
      omega
  case lacking =>
    cases hread : Metadata.read data root with
    | error fault => exact ⟨fault, rfl⟩
    | ok metadata =>
      obtain ⟨-, ⟨rest, stop⟩, hrest⟩ := stored.exists_headers_of_read h hread
      obtain ⟨more, hmore⟩ := Nat.exists_eq_succ_of_ne_zero (Nat.sub_ne_zero_of_lt hless)
      -- the next header is one of those that are counted, and it cannot be read
      rw [hmore] at hrest
      obtain ⟨header, next, -, hheader, -⟩ := Streams.headers_succ_eq_ok_iff.1 hrest
      exact absurd hheader hlacks.not_read

/-- Six streams with names of all lengths up to a multiple of four. The tables and the string heap are
listed twice. -/
def twiceListed : StoredRoot where
  reserved := List.replicate 8 0
  version := List.replicate 5 0
  flags := [0, 0]
  count := 6
  streams := [
    .ofHeader ⟨0, 4, Streams.nameBytes "#~"⟩ (by decide) (by decide) (by decide) (by decide),
    .ofHeader ⟨4, 9, Streams.nameBytes "#Strings"⟩ (by decide) (by decide) (by decide) (by decide),
    .ofHeader ⟨0, 8, Streams.nameBytes "#US"⟩ (by decide) (by decide) (by decide) (by decide),
    .ofHeader ⟨12, 4, Streams.nameBytes "#Blob"⟩ (by decide) (by decide) (by decide) (by decide),
    .ofHeader ⟨0, 3, Streams.nameBytes "#Strings"⟩ (by decide) (by decide) (by decide) (by decide),
    .ofHeader ⟨117, 24, Streams.nameBytes "#~"⟩ (by decide) (by decide) (by decide) (by decide)]
  length_reserved := by decide
  length_version_lt := by decide
  length_flags := by decide
  count_lt := by decide
  length_streams_le := by decide

/-- Three bytes, the root, what fills it up, and the header of a table stream without tables. -/
def twiceListedFile : Bytes :=
  ([1, 2, 3] ++ twiceListed.bytes ++ List.replicate 25 0).toArray

/-- Of the streams that are listed twice the last ones count. It is an error to cut the file in the
last stream or in the first header. -/
theorem read_storedRoot_twiceListed :
    (∃ layout, Layout.read twiceListedFile 120 = .ok layout ∧
      Metadata.read twiceListedFile 3 =
        .ok ⟨twiceListedFile, layout, #[0x42, 0x53, 0x4A], #[5, 0, 0, 0]⟩) ∧
      (∃ fault, Metadata.read (twiceListedFile.extract 0 130) 3 = .error fault) ∧
      ∃ fault, Metadata.read (twiceListedFile.extract 0 30) 3 = .error fault := by
  refine ⟨?_, ?_, ?_⟩
  · obtain ⟨layout, hlayout, -⟩ := okAnd_eq_true_iff.1
      (show okAnd (fun _ => true) (Layout.read twiceListedFile 120) = true by decide +kernel)
    refine ⟨layout, hlayout, ?_⟩
    obtain ⟨-, hread⟩ := (read_storedRoot twiceListed
      (show twiceListedFile.Holds 3 twiceListed.bytes by decide +kernel)).1 rfl (by decide +kernel)
    have htables : Streams.lastNamed twiceListed.headers "#~" =
        some ⟨117, 24, Streams.nameBytes "#~"⟩ := by decide +kernel
    have hstrings : Streams.heap twiceListedFile 3 twiceListed.headers "#Strings" =
        #[0x42, 0x53, 0x4A] := by decide +kernel
    have hblobs : Streams.heap twiceListedFile 3 twiceListed.headers "#Blob" = #[5, 0, 0, 0] := by
      decide +kernel
    rw [hread, htables, hstrings, hblobs]
    dsimp only
    rw [hlayout]
    rfl
  · exact (read_storedRoot twiceListed (by decide +kernel)).2.1 (by decide +kernel)
  · exact (read_storedRoot { twiceListed with streams := [], length_streams_le := Nat.zero_le _ }
      (by decide +kernel)).2.2 (by decide) (.short (by decide +kernel))

/-- A root with one header, the tables being its version. -/
def unpaddedRoot : StoredRoot where
  reserved := List.replicate 8 0
  version := List.replicate 24 0
  flags := [0, 0]
  count := 1
  streams := [.ofHeader ⟨16, 24, Streams.nameBytes "#~"⟩ (by decide) (by decide) (by decide)
    (by decide)]
  length_reserved := by decide
  length_version_lt := by decide
  length_flags := by decide
  count_lt := by decide
  length_streams_le := by decide

/-- The file ends with the terminator of the last name, and what fills up the header is not there.
Still the metadata are read. -/
theorem exists_read_unpaddedRoot :
    unpaddedRoot.streams.length = unpaddedRoot.count ∧
      unpaddedRoot.bytes.toArray.size < unpaddedRoot.length ∧
      ∃ metadata, Metadata.read unpaddedRoot.bytes.toArray 0 = .ok metadata := by
  obtain ⟨metadata, hmetadata, -⟩ := okAnd_eq_true_iff.1
    (show okAnd (fun _ => true) (Metadata.read unpaddedRoot.bytes.toArray 0) = true by
      decide +kernel)
  exact ⟨rfl, by decide +kernel, metadata, hmetadata⟩

end Metadata

end PublicAssembly
