import PublicAssembly.Proofs.Image.Cells

/-!
# What the reading of an image depends on

To read an image is to follow its headers to the metadata. `Image.parts` lists the spans of the file
that are looked at on the way: the headers of the PE file, the field of the CLI header that leads to
the metadata, and the parts of the metadata. The rows of the tables are not among them, nor are the
method bodies, as both are looked at only when something is asked of the image.

## Main definitions

* `Image.parts`: the spans that the reading of an image depends on;
* `Image.withData`: the image with other contents of its file.

## Main statements

* `Image.exists_parts`: an image is read alike from files that agree on its parts.
-/

namespace PublicAssembly.Image

open Reading

namespace Headers

variable {data out : Bytes}

/-- The spans that the reading of the PE headers depends on: the DOS header, the PE mark with the
COFF header, the optional header up to the directory of the CLI header, and the section headers. -/
def parts (data : Bytes) : Except Fault (List Span) := do
  let pe ← data.number 0x3C 4
  let sectionCount ← data.number (pe + 4 + 2) 2
  let optionalSize ← data.number (pe + 4 + 16) 2
  let optional := pe + 4 + 20
  let optionalMark ← data.number optional 2
  let toDirectories ← directoriesOffset optionalMark
  return [⟨0, 0x40⟩, ⟨pe, 4 + 20⟩, ⟨optional, toDirectories + (cliDirectory + 1) * 8⟩,
    ⟨optional + optionalSize, sectionCount * sectionHeaderSize⟩]

/-- What it takes to read the PE headers. -/
theorem read_eq_ok_iff {headers : Headers} :
    Headers.read data = .ok headers ↔
      (data.extract 0 2).toList = dosMark ∧
      ∃ pe mark sectionCount optionalSize optionalMark toDirectories directoryCount,
        data.number 0x3C 4 = .ok pe ∧ data.slice pe 4 = .ok mark ∧ mark.toList = peMark ∧
        data.number (pe + 4 + 2) 2 = .ok sectionCount ∧
        data.number (pe + 4 + 16) 2 = .ok optionalSize ∧
        data.number (pe + 4 + 20) 2 = .ok optionalMark ∧
        directoriesOffset optionalMark = .ok toDirectories ∧
        data.number (pe + 4 + 20 + toDirectories - 4) 4 = .ok directoryCount ∧
        cliDirectory < directoryCount ∧
        data.number (pe + 4 + 20 + toDirectories + cliDirectory * 8) 4 = .ok headers.cliHeader ∧
        headers.cliHeader ≠ 0 ∧
        readSections data sectionCount (pe + 4 + 20 + optionalSize) = .ok headers.sections := by
  simp only [Headers.read, bind_eq_ok_iff, throw_eq, error_bind, ite_error_eq_ok_iff,
    pure_eq_ok_iff, ne_eq, not_not, Nat.not_le]
  constructor
  · rintro ⟨hdos, pe, hpe, mark, hmark, hletters, sectionCount, hcount, optionalSize, hsize,
      optionalMark, hoptional, toDirectories, hdirectories, directoryCount, hnumber, hmany,
      cliHeader, hcli, hne, sections, hsections, rfl⟩
    exact ⟨hdos, pe, mark, sectionCount, optionalSize, optionalMark, toDirectories, directoryCount,
      hpe, hmark, hletters, hcount, hsize, hoptional, hdirectories, hnumber, hmany, hcli, hne,
      hsections⟩
  · rintro ⟨hdos, pe, mark, sectionCount, optionalSize, optionalMark, toDirectories,
      directoryCount, hpe, hmark, hletters, hcount, hsize, hoptional, hdirectories, hnumber, hmany,
      hcli, hne, hsections⟩
    exact ⟨hdos, pe, hpe, mark, hmark, hletters, sectionCount, hcount, optionalSize, hsize,
      optionalMark, hoptional, toDirectories, hdirectories, directoryCount, hnumber, hmany, _, hcli,
      hne, _, hsections, rfl⟩

/-- The section headers depend on their own bytes alone. -/
theorem readSections_congr {count offset : Nat} (hsize : data.size = out.size)
    (hagree : data.AgreeOn out offset (count * sectionHeaderSize)) :
    readSections data count offset = readSections out count offset := by
  induction count generalizing offset with
  | zero => rfl
  | succ count ih =>
    rw [Nat.succ_mul] at hagree
    have hroom : sectionHeaderSize = 40 := rfl
    -- the four fields that are read lie in the forty bytes of a header
    have hfield (place : Nat) (hle : offset ≤ place) (hlt : place + 4 ≤ offset + 40) :
        data.number place 4 = out.number place 4 :=
      Bytes.number_congr (hagree.mono hle (by omega)) hsize
    rw [readSections, readSections, ih (hagree.mono (by omega) (by omega)),
      hfield (offset + 8) (by omega) (by omega), hfield (offset + 12) (by omega) (by omega),
      hfield (offset + 16) (by omega) (by omega), hfield (offset + 20) (by omega) (by omega)]

/-- The directories begin behind the mark of the optional header. -/
theorem le_of_directoriesOffset {mark toDirectories : Nat}
    (h : directoriesOffset mark = .ok toDirectories) : 6 ≤ toDirectories := by
  simp only [directoriesOffset] at h
  split at h
  · cases h
    decide
  · simp only [ite_ok_error_eq_ok_iff] at h
    omega

/-- PE headers that can be read have parts, and are read alike from every file that agrees on
them. -/
theorem exists_parts {headers : Headers} (h : Headers.read data = .ok headers) :
    ∃ spans, parts data = .ok spans ∧
      ∀ out : Bytes, data.size = out.size → (∀ span ∈ spans, data.AgreeIn out span) →
        Headers.read out = .ok headers := by
  obtain ⟨hdos, pe, mark, sectionCount, optionalSize, optionalMark, toDirectories, directoryCount,
    hpe, hmark, hletters, hcount, hoptionalSize, hoptional, hdirectories, hnumber, hmany, hcli, hne,
    hsections⟩ := read_eq_ok_iff.1 h
  refine ⟨[⟨0, 0x40⟩, ⟨pe, 4 + 20⟩, ⟨pe + 4 + 20, toDirectories + (cliDirectory + 1) * 8⟩,
    ⟨pe + 4 + 20 + optionalSize, sectionCount * sectionHeaderSize⟩], ?_, fun out hsize hagree => ?_⟩
  · simp only [parts, hpe, hcount, hoptionalSize, hoptional, hdirectories, ok_bind]
    rfl
  · simp only [List.forall_mem_cons, List.not_mem_nil, false_implies, implies_true,
      and_true] at hagree
    obtain ⟨hdosPart, hpePart, hoptionalPart, hsectionPart⟩ := hagree
    replace hdosPart : data.AgreeOn out 0 0x40 := hdosPart
    replace hpePart : data.AgreeOn out pe (4 + 20) := hpePart
    replace hoptionalPart : data.AgreeOn out (pe + 4 + 20) (toDirectories + 15 * 8) := hoptionalPart
    have hle := le_of_directoriesOffset hdirectories
    have hplace : cliDirectory = 14 := rfl
    -- each field lies in one of the parts
    have hmagic : data.AgreeOn out 0 2 := hdosPart.mono (Nat.le_refl 0) (by omega)
    rw [hmagic.extract_eq hsize] at hdos
    rw [Bytes.number_congr (hdosPart.mono (by omega) (by omega)) hsize] at hpe
    rw [Bytes.slice_congr (hpePart.mono (by omega) (by omega)) hsize] at hmark
    rw [Bytes.number_congr (hpePart.mono (by omega) (by omega)) hsize] at hcount hoptionalSize
    rw [Bytes.number_congr (hoptionalPart.mono (by omega) (by omega)) hsize] at hoptional hnumber
    rw [Bytes.number_congr (hoptionalPart.mono (by omega) (by omega)) hsize] at hcli
    rw [readSections_congr hsize hsectionPart] at hsections
    exact read_eq_ok_iff.2 ⟨hdos, pe, mark, sectionCount, optionalSize, optionalMark, toDirectories,
      directoryCount, hpe, hmark, hletters, hcount, hoptionalSize, hoptional, hdirectories, hnumber,
      hmany, hcli, hne, hsections⟩

/-- What it takes to find the metadata root. -/
theorem metadataOffset_eq_ok_iff {headers : Headers} {root : Nat} :
    headers.metadataOffset data = .ok root ↔
      ∃ cli rva, headers.offsetOf headers.cliHeader = .ok cli ∧
        data.number (cli + 8) 4 = .ok rva ∧ rva ≠ 0 ∧ headers.offsetOf rva = .ok root := by
  simp only [metadataOffset, bind_eq_ok_iff, throw_eq, error_bind, ite_error_eq_ok_iff,
    exists_and_left, ne_eq]

end Headers

/-- The spans that the reading of an image depends on: the PE headers, the address of the metadata
in the CLI header, and the parts of the metadata. -/
def parts (data : Bytes) : Except Fault (List Span) := do
  let headers ← Headers.read data
  let headerParts ← Headers.parts data
  let cli ← headers.offsetOf headers.cliHeader
  let root ← headers.metadataOffset data
  let metadataParts ← Metadata.parts data root
  return headerParts ++ ⟨cli + 8, 4⟩ :: metadataParts

/-- The image with other contents of its file. -/
def withData (image : Image) (data : Bytes) : Image :=
  { image with data, metadata := { image.metadata with data } }

/-- An image that can be read has parts, and it is read alike from every file of its size that
agrees on them. -/
theorem exists_parts {data : Bytes} {image : Image} (h : Image.read data = .ok image) :
    ∃ spans, parts data = .ok spans ∧
      ∀ out : Bytes, data.size = out.size → (∀ span ∈ spans, data.AgreeIn out span) →
        Image.read out = .ok (image.withData out) := by
  obtain ⟨root, metadata, hheaders, hroot, hmetadata, himage⟩ := read_eq_ok_iff.1 h
  obtain ⟨cli, rva, hcli, hfield, hrva, haddress⟩ := Headers.metadataOffset_eq_ok_iff.1 hroot
  obtain ⟨headerParts, hheaderParts, hheadersAgain⟩ := Headers.exists_parts hheaders
  obtain ⟨metadataParts, hmetadataParts, hmetadataAgain⟩ := Metadata.exists_parts hmetadata
  refine ⟨headerParts ++ ⟨cli + 8, 4⟩ :: metadataParts, ?_, fun out hsize hagree => ?_⟩
  · simp only [parts, hheaders, hheaderParts, hcli, hroot, hmetadataParts, ok_bind]
    rfl
  · simp only [List.mem_append, List.mem_cons] at hagree
    have hfield' := Bytes.number_congr (hagree ⟨cli + 8, 4⟩ (.inr (.inl rfl))) hsize
    refine read_eq_ok_iff.2 ⟨root, { metadata with data := out },
      hheadersAgain out hsize fun span hspan => hagree span (.inl hspan),
      Headers.metadataOffset_eq_ok_iff.2 ⟨cli, rva, hcli, hfield'.symm.trans hfield, hrva,
        haddress⟩,
      hmetadataAgain out hsize fun span hspan => hagree span (.inr (.inr hspan)), ?_⟩
    rw [himage]
    rfl

end PublicAssembly.Image
