import Mathlib.Data.List.Induction
import PublicAssembly.Metadata.Root
import PublicAssembly.Proofs.Bytes.Span
import PublicAssembly.Proofs.Metadata.Cells

/-!
# The streams of the metadata

The metadata root lists its streams, and of the streams of one name the last one counts. So what
is read of the metadata is said by the list of the stream headers (`Streams.headers`), by the header
of the table stream, and by the bytes of two heaps. `Metadata.parts` lists the spans of the file
that hold these, and metadata are read alike from two files that agree there.

## Main definitions

* `Streams.headers`: the headers of some streams and where they end;
* `Metadata.parts`: the spans of a file that the reading of the metadata depends on.

## Main statements

* `foldlM_add_eq_ok_iff`: of the streams of one name the last one counts;
* `TableHeader.read_congr`: the header of the table stream depends on its own bytes alone;
* `Metadata.exists_parts`: the metadata depend on their parts alone.
-/

namespace PublicAssembly.Metadata

open Image (Fault)
open Reading

/-- What it takes to read the metadata at a root: its streams, with the tables among them, and the
layout of the tables. -/
theorem read_eq_ok_iff {data : Bytes} {root : Nat} {metadata : Metadata} :
    Metadata.read data root = .ok metadata ↔
      ∃ streams start layout, Streams.read data root = .ok streams ∧
        streams.tables = some start ∧ Layout.read data start = .ok layout ∧
        metadata = ⟨data, layout, streams.strings, streams.blobs⟩ := by
  simp only [Metadata.read, bind_eq_ok_iff]
  refine exists_congr fun streams => ?_
  cases htables : streams.tables with
  | none => simp
  | some start => simp [eq_comm (a := metadata)]

section StreamHeaders

variable {data out : Bytes} {offset : Nat}

/-- A stream name ends before the next header begins. -/
theorem lt_paddedNameSize (length : Nat) : length < paddedNameSize length := by
  rw [paddedNameSize]
  omega

/-- A stream name depends on its own bytes and its terminator alone. -/
theorem readStreamName_congr {limit : Nat} {name : List UInt8}
    (h : readStreamName data limit offset = .ok name)
    (hagree : data.AgreeOn out offset (name.length + 1)) :
    readStreamName out limit offset = .ok name := by
  induction limit generalizing offset name with
  | zero =>
    have hfirst : data.AgreeOn out offset 1 := hagree.mono (Nat.le_refl _) (by omega)
    have hbyte := Bytes.byte_congr hfirst
    rw [readStreamName, hbyte] at h
    rwa [readStreamName]
  | succ limit ih =>
    have hfirst : data.AgreeOn out offset 1 := hagree.mono (Nat.le_refl _) (by omega)
    have hbyte := Bytes.byte_congr hfirst
    rw [readStreamName, bind_eq_ok_iff] at h
    obtain ⟨b, hb, h⟩ := h
    rw [readStreamName, ← hbyte, hb, ok_bind]
    split at h
    · next hzero => rw [if_pos hzero, h]
    · next hnonzero =>
      simp only [bind_eq_ok_iff, pure_eq_ok_iff] at h
      obtain ⟨rest, hrest, rfl⟩ := h
      rw [List.length_cons] at hagree
      rw [if_neg hnonzero]
      simp [ih hrest (hagree.mono (by omega) (by omega))]

/-- What it takes to read a stream header. -/
theorem StreamHeader.read_eq_ok_iff {header : StreamHeader} {next : Nat} :
    StreamHeader.read data offset = .ok (header, next) ↔
      data.number offset 4 = .ok header.offset ∧ data.number (offset + 4) 4 = .ok header.size ∧
        readStreamName data maxStreamName (offset + 8) = .ok header.name ∧
        next = offset + 8 + paddedNameSize header.name.length := by
  simp only [StreamHeader.read, bind_eq_ok_iff, pure_eq_ok_iff, Prod.mk.injEq]
  constructor
  · rintro ⟨start, hstart, size, hsize, name, hname, rfl, rfl⟩
    exact ⟨hstart, hsize, hname, rfl⟩
  · rintro ⟨hstart, hsize, hname, rfl⟩
    exact ⟨_, hstart, _, hsize, _, hname, rfl, rfl⟩

/-- A stream header depends on its own bytes alone. -/
theorem StreamHeader.read_congr {header : StreamHeader} {next : Nat}
    (h : StreamHeader.read data offset = .ok (header, next)) (hsize : data.size = out.size)
    (hagree : data.AgreeOn out offset (next - offset)) :
    StreamHeader.read out offset = .ok (header, next) := by
  rw [StreamHeader.read_eq_ok_iff] at h ⊢
  obtain ⟨hstart, hlength, hname, rfl⟩ := h
  have hpadded := lt_paddedNameSize header.name.length
  refine ⟨?_, ?_, readStreamName_congr hname (hagree.mono (by omega) (by omega)), rfl⟩
  · rwa [← Bytes.number_congr (hagree.mono (by omega) (by omega)) hsize]
  · rwa [← Bytes.number_congr (hagree.mono (by omega) (by omega)) hsize]

namespace Streams

/-- The headers of `count` streams from `offset` on, and where they end. -/
def headers (data : Bytes) : (count offset : Nat) → Except Fault (List StreamHeader × Nat)
  | 0, offset => .ok ([], offset)
  | count + 1, offset => do
    let (header, next) ← StreamHeader.read data offset
    let (rest, stop) ← headers data count next
    return (header :: rest, stop)

variable {count stop : Nat} {found : List StreamHeader}

/-- What it takes to read the headers of some streams. -/
theorem headers_succ_eq_ok_iff :
    headers data (count + 1) offset = .ok (found, stop) ↔
      ∃ header next rest, StreamHeader.read data offset = .ok (header, next) ∧
        headers data count next = .ok (rest, stop) ∧ found = header :: rest := by
  simp only [headers, bind_eq_ok_iff, pure_eq_ok_iff, Prod.exists, Prod.mk.injEq]
  constructor
  · rintro ⟨header, next, hheader, rest, _, hrest, rfl, rfl⟩
    exact ⟨header, next, rest, hheader, hrest, rfl⟩
  · rintro ⟨header, next, rest, hheader, hrest, rfl⟩
    exact ⟨header, next, hheader, rest, stop, hrest, rfl, rfl⟩

/-- The headers end behind their beginning. -/
theorem le_of_headers (h : headers data count offset = .ok (found, stop)) : offset ≤ stop := by
  induction count generalizing offset found with
  | zero =>
    cases h
    exact Nat.le_refl _
  | succ count ih =>
    obtain ⟨header, next, rest, hheader, hrest, rfl⟩ := headers_succ_eq_ok_iff.1 h
    obtain ⟨-, -, -, rfl⟩ := StreamHeader.read_eq_ok_iff.1 hheader
    have hle := ih hrest
    omega

/-- The headers of some streams depend on their own bytes alone. -/
theorem headers_congr (h : headers data count offset = .ok (found, stop))
    (hsize : data.size = out.size) (hagree : data.AgreeOn out offset (stop - offset)) :
    headers out count offset = .ok (found, stop) := by
  induction count generalizing offset found with
  | zero =>
    cases h
    rfl
  | succ count ih =>
    obtain ⟨header, next, rest, hheader, hrest, rfl⟩ := headers_succ_eq_ok_iff.1 h
    have hle := le_of_headers hrest
    -- the headers behind the first one are further on, and within the bytes that agree
    have hnext : offset ≤ next := by
      obtain ⟨-, -, -, rfl⟩ := StreamHeader.read_eq_ok_iff.1 hheader
      omega
    exact headers_succ_eq_ok_iff.2 ⟨header, next, rest,
      StreamHeader.read_congr hheader hsize (hagree.mono (Nat.le_refl _) (by omega)),
      ih hrest (hagree.mono hnext (by omega)), rfl⟩

/-- Taking in some streams is reading their headers and then taking in one after another. -/
theorem readFrom_eq_ok_iff {root : Nat} {before streams : Streams} :
    readFrom data root count offset before = .ok streams ↔
      ∃ found stop, headers data count offset = .ok (found, stop) ∧
        found.foldlM (add data root) before = .ok streams := by
  induction count generalizing offset before with
  | zero => simp [readFrom, headers, pure, Except.pure]
  | succ count ih =>
    -- one round reads a header and takes in its stream, while the list has all headers first
    simp only [readFrom, bind_eq_ok_iff, Prod.exists, ih, headers_succ_eq_ok_iff]
    constructor
    · rintro ⟨header, next, hheader, between, hadd, found, stop, hfound, hstreams⟩
      refine ⟨header :: found, stop, ⟨header, next, found, hheader, hfound, rfl⟩, ?_⟩
      rw [List.foldlM_cons, hadd, ok_bind, hstreams]
    · rintro ⟨_, stop, ⟨header, next, found, hheader, hfound, rfl⟩, hstreams⟩
      rw [List.foldlM_cons, bind_eq_ok_iff] at hstreams
      obtain ⟨between, hadd, hstreams⟩ := hstreams
      exact ⟨header, next, hheader, between, hadd, found, stop, hfound, hstreams⟩

/-! ### The streams that count -/

/-- The last of some streams with the given name. -/
def lastNamed (found : List StreamHeader) (name : String) : Option StreamHeader :=
  found.reverse.find? fun header => header.name = nameBytes name

/-- The bytes of the last stream with the given name, none if there is no such stream. -/
def heap (data : Bytes) (root : Nat) (found : List StreamHeader) (name : String) : Bytes :=
  match lastNamed found name with
  | none => #[]
  | some header => data.extract (root + header.offset) (root + header.offset + header.size)

/-- A stream that stands behind others is the last one of its name. -/
theorem lastNamed_append (found : List StreamHeader) (header : StreamHeader) (name : String) :
    lastNamed (found ++ [header]) name =
      if header.name = nameBytes name then some header else lastNamed found name := by
  by_cases h : header.name = nameBytes name
  · simp [lastNamed, h]
  · simp [lastNamed, h]

/-- A stream that stands behind others is the heap of its name. -/
theorem heap_append (root : Nat) (found : List StreamHeader) (header : StreamHeader)
    (name : String) :
    heap data root (found ++ [header]) name =
      if header.name = nameBytes name then
        data.extract (root + header.offset) (root + header.offset + header.size)
      else heap data root found name := by
  rw [heap, lastNamed_append]
  by_cases h : header.name = nameBytes name
  · simp [h]
  · simp [h, heap]

/-- What it takes to take in a stream: it lies in the file, and it is not one of edited tables. -/
theorem add_eq_ok_iff {root : Nat} {before streams : Streams} {header : StreamHeader} :
    add data root before header = .ok streams ↔
      (root + header.offset + header.size ≤ data.size ∧ header.name ≠ nameBytes "#-") ∧
        streams = {
          tables := if header.name = nameBytes "#~" then some (root + header.offset)
            else before.tables
          strings := if header.name = nameBytes "#Strings" then
            data.extract (root + header.offset) (root + header.offset + header.size)
            else before.strings
          blobs := if header.name = nameBytes "#Blob" then
            data.extract (root + header.offset) (root + header.offset + header.size)
            else before.blobs } := by
  rw [add, Bytes.slice, eq_comm (a := streams)]
  by_cases hroom : root + header.offset + header.size ≤ data.size
  · rw [if_pos hroom, ok_bind]
    -- the four names are different, so one stream counts at most once
    by_cases htables : header.name = nameBytes "#~"
    · simp [htables, hroom, nameBytes]
    · by_cases hedited : header.name = nameBytes "#-"
      · simp [hedited, nameBytes]
      · by_cases hstrings : header.name = nameBytes "#Strings"
        · simp [hstrings, hroom, nameBytes]
        · by_cases hblobs : header.name = nameBytes "#Blob"
          · simp [hblobs, hroom, nameBytes]
          · simp [htables, hedited, hstrings, hblobs, hroom]
  · simp [hroom]

/-- What it takes to take in some streams: all lie in the file, and none is one of edited tables. Of
the streams of one name the last one counts. -/
theorem foldlM_add_eq_ok_iff {root : Nat} {streams : Streams} :
    found.foldlM (add data root) empty = .ok streams ↔
      (∀ header ∈ found, root + header.offset + header.size ≤ data.size ∧
        header.name ≠ nameBytes "#-") ∧
      streams = {
        tables := (lastNamed found "#~").map (root + ·.offset)
        strings := heap data root found "#Strings"
        blobs := heap data root found "#Blob" } := by
  -- from behind, since the last stream of a name overrides those before it
  induction found using List.reverseRecOn generalizing streams with
  | nil => simp [lastNamed, heap, empty, eq_comm, pure, Except.pure]
  | append_singleton found header ih =>
    simp only [List.foldlM_append, List.foldlM_cons, List.foldlM_nil, bind_eq_ok_iff,
      pure_eq_ok_iff, ih, add_eq_ok_iff, exists_eq_right, List.mem_append, List.mem_singleton]
    simp only [lastNamed_append, heap_append, Option.map_some,
      apply_ite (Option.map fun header : StreamHeader => root + header.offset)]
    constructor
    · rintro ⟨before, ⟨hall, rfl⟩, hheader, rfl⟩
      exact ⟨fun other hother => hother.elim (hall other) fun heq => heq ▸ hheader, rfl⟩
    · rintro ⟨hall, rfl⟩
      exact ⟨_, ⟨fun other hother => hall other (.inl hother), rfl⟩, hall header (.inr rfl), rfl⟩

/-! ### Reading all streams -/

/-- The headers of the streams of the metadata whose root is at `root`, and where they end. -/
def listed (data : Bytes) (root : Nat) : Except Fault (List StreamHeader × Nat) := do
  let versionLength ← data.number (root + 12) 4
  let count ← data.number (root + 16 + versionLength + 2) 2
  headers data count (root + 16 + versionLength + 4)

/-- What it takes to read the streams of the metadata. -/
theorem read_eq_ok_iff {root : Nat} {streams : Streams} :
    read data root = .ok streams ↔
      data.number root 4 = .ok signature ∧ ∃ found stop, listed data root = .ok (found, stop) ∧
        found.foldlM (add data root) empty = .ok streams := by
  simp only [read, listed, bind_eq_ok_iff, throw_eq, error_bind, ite_error_eq_ok_iff, ne_eq,
    not_not, readFrom_eq_ok_iff]
  constructor
  · rintro ⟨_, hmark, rfl, versionLength, hlength, count, hcount, found, stop, hfound, hstreams⟩
    exact ⟨hmark, found, stop, ⟨versionLength, hlength, count, hcount, hfound⟩, hstreams⟩
  · rintro ⟨hmark, found, stop, ⟨versionLength, hlength, count, hcount, hfound⟩, hstreams⟩
    exact ⟨_, hmark, rfl, versionLength, hlength, count, hcount, found, stop, hfound, hstreams⟩

/-- The list of the streams depends on the bytes from the root to its end alone, and so does the
mark at the root. -/
theorem listed_congr {root : Nat} (h : listed data root = .ok (found, stop))
    (hsize : data.size = out.size) (hagree : data.AgreeOn out root (stop - root)) :
    listed out root = .ok (found, stop) ∧ out.number root 4 = data.number root 4 := by
  simp only [listed, bind_eq_ok_iff] at h ⊢
  obtain ⟨versionLength, hlength, count, hcount, hfound⟩ := h
  have hstop := le_of_headers hfound
  refine ⟨⟨versionLength, ?_, count, ?_, headers_congr hfound hsize (hagree.mono ?_ ?_)⟩, ?_⟩
  · rwa [← Bytes.number_congr (hagree.mono (by omega) (by omega)) hsize]
  · rwa [← Bytes.number_congr (hagree.mono (by omega) (by omega)) hsize]
  · omega
  · omega
  · rw [Bytes.number_congr (hagree.mono (by omega) (by omega)) hsize]

end Streams

end StreamHeaders

/-! ### The header of the table stream -/

section Tables

variable {data out : Bytes}

/-- The row counts end behind their beginning, and depend on their own bytes alone. -/
theorem readCounts_congr (out : Bytes) {mask offset stop : Nat} {tables : List Table} {counts : RowCounts}
    (h : readCounts data mask tables offset = .ok (counts, stop)) :
    offset ≤ stop ∧ (data.size = out.size → data.AgreeOn out offset (stop - offset) →
      readCounts out mask tables offset = .ok (counts, stop)) := by
  induction tables generalizing offset counts with
  | nil =>
    cases h
    exact ⟨Nat.le_refl _, fun _ _ => rfl⟩
  | cons table rest ih =>
    rw [readCounts] at h
    -- a table that is announced takes its four bytes, and any other takes none
    by_cases hpresent : mask.testBit table = true
    · simp only [hpresent, if_true, bind_eq_ok_iff, pure_eq_ok_iff, Prod.exists,
        Prod.mk.injEq] at h
      obtain ⟨rows, hrows, others, _, hothers, rfl, rfl⟩ := h
      obtain ⟨hle, hcongr⟩ := ih hothers
      refine ⟨by omega, fun hsize hagree => ?_⟩
      rw [Bytes.number_congr (hagree.mono (Nat.le_refl _) (by omega)) hsize] at hrows
      rw [readCounts, if_pos hpresent, hrows, ok_bind,
        hcongr hsize (hagree.mono (by omega) (by omega))]
      rfl
    · simp only [hpresent, if_false, bind_eq_ok_iff, pure_eq_ok_iff, Prod.exists, Prod.mk.injEq,
        Bool.false_eq_true] at h
      obtain ⟨others, _, hothers, rfl, rfl⟩ := h
      obtain ⟨hle, hcongr⟩ := ih hothers
      refine ⟨hle, fun hsize hagree => ?_⟩
      rw [readCounts, if_neg hpresent, hcongr hsize hagree]
      rfl

/-- The header of the table stream depends on the bytes up to the rows alone. -/
theorem TableHeader.read_congr {start : Nat} {header : TableHeader}
    (h : TableHeader.read data start = .ok header) (hsize : data.size = out.size)
    (hagree : data.AgreeOn out start (header.rowsOffset - start)) :
    TableHeader.read out start = .ok header := by
  have hsteps := h
  simp only [TableHeader.read, bind_eq_ok_iff, throw_eq, error_bind, ite_error_eq_ok_iff,
    Prod.exists] at hsteps
  obtain ⟨heapSizes, hheaps, mask, hmask, -, counts, stop, hcounts, hheader⟩ := hsteps
  obtain ⟨hle, hcongr⟩ := readCounts_congr out hcounts
  have hrows : stop ≤ header.rowsOffset := by
    split at hheader
    · cases hheader
    · rw [pure_eq_ok_iff] at hheader
      rw [← hheader]
      dsimp only
      split
      · omega
      · exact Nat.le_refl _
  have hheaps' := hheaps
  have hmask' := hmask
  rw [Bytes.byte_congr (hagree.mono (by omega) (by omega))] at hheaps'
  rw [Bytes.number_congr (hagree.mono (by omega) (by omega)) hsize] at hmask'
  have hcounts' := hcongr hsize (hagree.mono (by omega) (by omega))
  -- both files give the same answer at each step
  simp only [TableHeader.read, hheaps, hmask, ok_bind, hcounts] at h
  simp only [TableHeader.read, hheaps', hmask', ok_bind, hcounts']
  exact h

end Tables


/-! ### The parts of the metadata -/

/-- The spans that the reading of metadata depends on whose root is at `root`: the root with the
stream headers, the header of the table stream, and the string and blob heaps. -/
def parts (data : Bytes) (root : Nat) : Except Fault (List Span) := do
  let (found, stop) ← Streams.listed data root
  match Streams.lastNamed found "#~" with
  | none => throw (.notManaged .noTableStream)
  | some stream =>
    let start := root + stream.offset
    let header ← TableHeader.read data start
    let heaps := ["#Strings", "#Blob"].filterMap (Streams.lastNamed found)
    return ⟨root, stop - root⟩ :: ⟨start, header.rowsOffset - start⟩ ::
      heaps.map fun heap => ⟨root + heap.offset, heap.size⟩

/-- A heap depends on its own bytes alone. -/
theorem Streams.heap_congr {data out : Bytes} {root : Nat} {found : List StreamHeader}
    {name : String} (hsize : data.size = out.size)
    (hagree : ∀ heap, lastNamed found name = some heap →
      data.AgreeOn out (root + heap.offset) heap.size) :
    heap out root found name = heap data root found name := by
  rw [heap, heap]
  cases hlast : lastNamed found name with
  | none => rfl
  | some header => exact ((hagree header hlast).extract_eq hsize).symm

/-- Metadata that can be read have parts, and are read alike from every file that agrees on
them. -/
theorem exists_parts {data : Bytes} {root : Nat} {metadata : Metadata}
    (h : Metadata.read data root = .ok metadata) :
    ∃ spans, parts data root = .ok spans ∧
      ∀ out : Bytes, data.size = out.size → (∀ span ∈ spans, data.AgreeIn out span) →
        Metadata.read out root = .ok { metadata with data := out } := by
  obtain ⟨streams, start, layout, hstreams, htables, hlayout, rfl⟩ := read_eq_ok_iff.1 h
  obtain ⟨hmark, found, stop, hlisted, hfound⟩ := Streams.read_eq_ok_iff.1 hstreams
  obtain ⟨hall, rfl⟩ := Streams.foldlM_add_eq_ok_iff.1 hfound
  obtain ⟨header, hheader, hroom, rfl⟩ := Layout.read_eq_ok_iff.1 hlayout
  obtain ⟨stream, hstream, rfl⟩ := Option.map_eq_some_iff.1 htables
  refine ⟨⟨root, stop - root⟩ ::
    ⟨root + stream.offset, header.rowsOffset - (root + stream.offset)⟩ ::
      (["#Strings", "#Blob"].filterMap (Streams.lastNamed found)).map fun heap =>
        ⟨root + heap.offset, heap.size⟩, ?_, fun out hsize hagree => ?_⟩
  · simp only [parts, hlisted, ok_bind, hstream, hheader]
    rfl
  · rw [List.forall_mem_cons, List.forall_mem_cons] at hagree
    obtain ⟨hroot, hrows, hheaps⟩ := hagree
    obtain ⟨hlisted', hmark'⟩ := Streams.listed_congr hlisted hsize hroot
    -- a heap is cut out of the data, and so depends on the bytes of its stream
    have hheap (name : String) (hname : name ∈ ["#Strings", "#Blob"]) :
        Streams.heap out root found name = Streams.heap data root found name := by
      refine Streams.heap_congr hsize fun heap hheap => ?_
      exact hheaps ⟨root + heap.offset, heap.size⟩
        (List.mem_map_of_mem (List.mem_filterMap.2 ⟨name, hname, hheap⟩))
    refine read_eq_ok_iff.2 ⟨_, root + stream.offset, header.layout, Streams.read_eq_ok_iff.2
      ⟨hmark'.trans hmark, found, stop, hlisted', Streams.foldlM_add_eq_ok_iff.2 ⟨?_, rfl⟩⟩, ?_,
      Layout.read_eq_ok_iff.2 ⟨header, TableHeader.read_congr hheader hsize hrows, ?_, rfl⟩, ?_⟩
    · rwa [← hsize]
    · exact htables
    · rwa [← hsize]
    · rw [hheap "#Strings" (by simp), hheap "#Blob" (by simp)]

end PublicAssembly.Metadata
