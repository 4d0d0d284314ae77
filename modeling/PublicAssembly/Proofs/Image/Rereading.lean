import PublicAssembly.Proofs.Image.Separation

/-!
# The written file, read again

When the pieces of an image are apart, the file of a promoted module has the same headers, the same
heaps and the same cells as the file it came from, but for the flag words; those have the low bits
that were written. A body of the file is the same as before, or it is empty.

## Main statements

* `Publishes.read_applyAll`: the file is read as the same image with other contents;
* `Publishes.alike_applyAll`: that image differs in flag words alone;
* `Publishes.cell_of_writtenBits`: the flag words have the low bits that were written;
* `Publishes.bodyAt_of_hasBody`: the bodies are the same or empty.
-/

namespace PublicAssembly.Image

open Metadata (Table)
open Reading

section Rereading

variable {data : Bytes} {m : Module} {image : Image} {name : String} {members : Membership}
  {enclosing : Enclosing} {decls : List (Tree TypeDecl)} {guard : Guard} {strip : Bool}
  {changes : List Patch} {spans : List Span}

/-- Low bits are written into flag words. -/
theorem WrittenBits.mem_flagColumns {table row column bits : Nat}
    (h : WrittenBits image members enclosing guard table row column bits) :
    (table, column) ∈ flagColumns := by
  obtain ⟨type, -, hrow⟩ := h
  cases hrow <;> simp [flagColumns]

/-- What empties a body empties one of the bodies of the image, and one that has code. -/
theorem Emptied.exists_body (hmembers : image.membership = .ok members) {change : Patch}
    (h : Emptied image members strip change) :
    strip = true ∧ ∃ row place code, place ∈ image.bodies ∧ image.HasBody row place code ∧
      code ≠ #[] ∧ change = .emptyBody place.headerOffset := by
  obtain ⟨type, htype, row, hrow, place, code, hbody, hempty⟩ := h
  obtain ⟨hstrip, hcode, rfl⟩ := emptied_eq_some_iff.1 hempty
  obtain ⟨-, hmethods⟩ := runs_of_membership hmembers
  have howned : image.Owned 5 Table.methodDef row := (hmethods.owned_iff row).2 ⟨type, htype, hrow⟩
  exact ⟨hstrip, row, place, code, mem_bodies.2 ⟨row, howned, code, hbody⟩, hbody, hcode, rfl⟩

/-- What empties a body writes at one place alone, where a body of the image begins. -/
theorem Emptied.exists_of_covers (hmembers : image.membership = .ok members) {change : Patch}
    (h : Emptied image members strip change) {i : Nat} (hcovers : change.Covers i) :
    strip = true ∧ ∃ place ∈ image.bodies, place.headerOffset = i ∧ change = .emptyBody i := by
  obtain ⟨hstrip, -, place, -, hplace, -, -, rfl⟩ := h.exists_body hmembers
  obtain rfl := covers_emptyBody_iff.1 hcovers
  exact ⟨hstrip, place, hplace, rfl, rfl⟩

/-- What it takes to read the body at an address. -/
theorem bodyAt_eq_ok_iff {rva : Nat} {place : Body} {code : Bytes} :
    image.bodyAt rva = .ok (place, code) ↔
      ∃ offset, image.headers.offsetOf rva = .ok offset ∧
        Body.read image.data offset = .ok (place, code) := by
  rw [bodyAt, bind_eq_ok_iff]

/-- A body of a method row is read at its own place. -/
theorem HasBody.read_eq {row : Nat} {place : Body} {code : Bytes}
    (h : image.HasBody row place code) :
    Body.read image.data place.headerOffset = .ok (place, code) := by
  obtain ⟨rva, implFlags, -, -, -, -, hat⟩ := h
  obtain ⟨offset, -, hbody⟩ := bodyAt_eq_ok_iff.1 hat
  rwa [(Body.header_of_read hbody).1]

/-- The first byte of a body belongs to it. -/
theorem holds_headerOffset {place : Body} (h : place ∈ image.bodies) :
    place.span.Holds place.headerOffset := by
  obtain ⟨row, -, code, hbody⟩ := mem_bodies.1 h
  obtain ⟨-, hpos, -⟩ := Body.header_of_read hbody.read_eq
  refine ⟨Nat.le_refl _, ?_⟩
  simp only [Body.span]
  omega

/-- A cell is the same in every file of the same size that has the same bytes there. -/
theorem cell_withData (hread : Image.read data = .ok image) {out : Bytes}
    (hsize : out.size = data.size) {table row column : Nat}
    (hagree : ∀ offset width, image.metadata.layout.cell table row column = .ok (offset, width) →
      data.AgreeOn out offset width) :
    (image.withData out).cell table row column = image.cell table row column := by
  rw [cell, cell, Metadata.cell, Metadata.cell, withData, (layout_of_read hread).2.1]
  cases hcell : image.metadata.layout.cell table row column with
  | error fault => rfl
  | ok place =>
    rw [ok_bind, ok_bind]
    exact (Bytes.number_congr (hagree _ _ hcell) hsize.symm).symm

/-- A byte of a span that is apart from the tables lies in no cell. -/
theorem not_in_cell_of_apart (hread : Image.read data = .ok image) {span : Span}
    (hspan : ∀ table ∈ image.tableSpans, span.Apart table) {i : Nat} (hi : span.Holds i)
    {table row column offset width : Nat}
    (hcell : image.metadata.layout.cell table row column = .ok (offset, width)) :
    ¬ (offset ≤ i ∧ i < offset + width) := by
  intro hin
  obtain ⟨tableSpan, htable, hholds⟩ := exists_tableSpan hread hcell hin
  exact Span.apart_iff.1 (hspan tableSpan htable) i hi hholds

/-- A byte of a body lies in no cell. -/
theorem Separate.not_in_cell (hseparate : image.Separate spans strip)
    (hread : Image.read data = .ok image) {place : Body} (hplace : place ∈ image.bodies)
    {i : Nat} (hi : place.span.Holds i) {table row column offset width : Nat}
    (hcell : image.metadata.layout.cell table row column = .ok (offset, width)) :
    ¬ (offset ≤ i ∧ i < offset + width) :=
  not_in_cell_of_apart hread (hseparate.bodies_tables place hplace) hi hcell

/-- A body that begins in another one begins where it does. -/
theorem Separate.headerOffset_eq (hseparate : image.Separate spans strip) {place other : Body}
    (hplace : place ∈ image.bodies) (hother : other ∈ image.bodies)
    (hholds : place.span.Holds other.headerOffset) : place.headerOffset = other.headerOffset := by
  rcases hseparate.bodies_bodies place hplace other hother with hsame | happart
  · exact hsame
  · exact absurd (holds_headerOffset hother) (Span.apart_iff.1 happart _ hholds)

namespace Publishes

/-- A flag word that gets low bits is not empty. -/
theorem width_pos (hchanges : Publishes image members enclosing guard strip changes)
    {table row column bits offset width : Nat}
    (hbits : WrittenBits image members enclosing guard table row column bits)
    (hcell : image.metadata.layout.cell table row column = .ok (offset, width)) : 0 < width := by
  obtain ⟨change, -, hsets⟩ := hchanges.cells _ _ _ _ hbits
  exact (hsets.covers_iff hcell).2.1

/-- A span that is apart from everything that is written stays. -/
theorem agreeIn_applyAll (hchanges : Publishes image members enclosing guard strip changes)
    (h : Loads data m image name members enclosing decls) {span : Span}
    (hflags : ∀ flag ∈ image.flagSpans, flag.Apart span)
    (hheaders : strip = true → ∀ body ∈ image.bodies,
      (⟨body.headerOffset, 1⟩ : Span).Apart span) :
    data.AgreeIn (applyAll data changes) span := by
  intro i hle hlt
  refine (hchanges.getElem?_of_unwritten h.image_eq
    (fun table row column bits width hbits hcell => ?_) fun change hempty hcovers => ?_).symm
  · have hwidth := hchanges.width_pos hbits hcell
    have happart := hflags _ (mem_flagSpans hbits.mem_flagColumns hcell)
    exact Span.apart_iff.1 happart i ⟨Nat.le_refl i, Nat.lt_add_of_pos_right hwidth⟩ ⟨hle, hlt⟩
  · obtain ⟨hstrip, place, hplace, rfl, -⟩ := hempty.exists_of_covers h.members_eq hcovers
    exact Span.apart_iff.1 (hheaders hstrip place hplace) _
      ⟨Nat.le_refl _, Nat.lt_succ_self _⟩ ⟨hle, hlt⟩

/-- The file is read as the same image with other contents. -/
theorem read_applyAll (hchanges : Publishes image members enclosing guard strip changes)
    (h : Loads data m image name members enclosing decls) (hspans : parts data = .ok spans)
    (hseparate : image.Separate spans strip) :
    Image.read (applyAll data changes) = .ok (image.withData (applyAll data changes)) := by
  obtain ⟨others, hothers, hagain⟩ := exists_parts h.image_eq
  cases hspans.symm.trans hothers
  refine hagain _ (size_applyAll data changes).symm fun span hspan => ?_
  exact hchanges.agreeIn_applyAll h
    (fun flag hflag => hseparate.flags_parts flag hflag span hspan)
    fun hstrip body hbody => hseparate.headers_parts hstrip body hbody span hspan

/-- No body is emptied in a cell. -/
theorem not_covers_cell (hseparate : image.Separate spans strip)
    (h : Loads data m image name members enclosing decls) {table row column offset width : Nat}
    (hcell : image.metadata.layout.cell table row column = .ok (offset, width)) {i : Nat}
    (hi : offset ≤ i ∧ i < offset + width) {change : Patch}
    (hempty : Emptied image members strip change) : ¬ change.Covers i := by
  intro hcovers
  obtain ⟨-, place, hplace, rfl, -⟩ := hempty.exists_of_covers h.members_eq hcovers
  exact hseparate.not_in_cell h.image_eq hplace (holds_headerOffset hplace) hcell hi

/-- A byte of a cell stays, unless it is the first and the cell gets low bits. -/
theorem getElem?_of_separate_cell (hchanges : Publishes image members enclosing guard strip changes)
    (h : Loads data m image name members enclosing decls) (hseparate : image.Separate spans strip)
    {table row column offset width : Nat}
    (hcell : image.metadata.layout.cell table row column = .ok (offset, width)) {i : Nat}
    (hle : offset ≤ i) (hlt : i < offset + width)
    (hi : i ≠ offset ∨ (table, column) ∉ flagColumns) :
    (applyAll data changes)[i]? = data[i]? := by
  refine hchanges.getElem?_of_unwritten h.image_eq
    (fun table' row' column' bits' width' hbits' hcell' => ?_)
    fun change hempty => not_covers_cell hseparate h hcell ⟨hle, hlt⟩ hempty
  have hwidth := hchanges.width_pos hbits' hcell'
  -- the byte begins a cell that gets low bits, and a byte lies in one cell only
  obtain ⟨rfl, rfl, rfl⟩ : table = table' ∧ row = row' ∧ column = column' := by
    simpa using cell_unique h.image_eq hcell hcell' ⟨hle, hlt⟩
      ⟨Nat.le_refl i, Nat.lt_add_of_pos_right hwidth⟩
  rcases hi with hne | hcolumn
  · cases hcell.symm.trans hcell'
    exact hne rfl
  · exact hcolumn hbits'.mem_flagColumns

/-- The image of the file differs from that of the old file in flag words alone. -/
theorem alike_applyAll (hchanges : Publishes image members enclosing guard strip changes)
    (h : Loads data m image name members enclosing decls)
    (hseparate : image.Separate spans strip) :
    Alike image (image.withData (applyAll data changes)) where
  headers_eq := rfl
  layout_eq := rfl
  strings_eq := rfl
  blobs_eq := rfl
  cell_eq hcolumn _ := cell_withData h.image_eq (size_applyAll data changes) fun _ _ hcell _ hle hlt =>
    (hchanges.getElem?_of_separate_cell h hseparate hcell hle hlt (.inr hcolumn)).symm

/-- A flag word that gets low bits has them afterwards. -/
theorem cell_of_writtenBits (hchanges : Publishes image members enclosing guard strip changes)
    (h : Loads data m image name members enclosing decls) (hseparate : image.Separate spans strip)
    {table row column bits flags : Nat}
    (hbits : WrittenBits image members enclosing guard table row column bits)
    (hflags : image.cell table row column = .ok flags) :
    (image.withData (applyAll data changes)).cell table row column =
      .ok (withLow flags bits) := by
  obtain ⟨offset, width, hcell, hnumber⟩ := cell_eq_ok_iff.1 hflags
  rw [(layout_of_read h.image_eq).2.1] at hnumber
  have hwidth := hchanges.width_pos hbits hcell
  refine cell_eq_ok_iff.2 ⟨offset, width, hcell,
    Bytes.number_withLow hwidth hnumber (size_applyAll data changes).symm ?_ fun i hlt hlt' => ?_⟩
  · exact hchanges.getElem?_of_writtenBits h.image_eq hbits hcell fun change hempty =>
      not_covers_cell hseparate h hcell ⟨Nat.le_refl _, Nat.lt_add_of_pos_right hwidth⟩ hempty
  · exact hchanges.getElem?_of_separate_cell h hseparate hcell (Nat.le_of_lt hlt) hlt'
      (.inl (Nat.ne_of_gt hlt))

/-- Nothing is written into a body that is not emptied: a body at the same place would have code to
lose. -/
theorem agreeIn_of_kept (hchanges : Publishes image members enclosing guard strip changes)
    (h : Loads data m image name members enclosing decls) (hseparate : image.Separate spans strip)
    {row : Nat} {place : Body} {code : Bytes} (hplace : place ∈ image.bodies)
    (hbody : image.HasBody row place code) (hkept : ¬(strip = true ∧ code ≠ #[])) :
    data.AgreeIn (applyAll data changes) place.span := by
  intro i hle hlt
  refine (hchanges.getElem?_of_unwritten h.image_eq
    (fun table row column bits width hbits hcell => ?_) fun change hother hcovers => ?_).symm
  · -- bodies lie apart from the cells of the tables
    have hwidth := hchanges.width_pos hbits hcell
    exact hseparate.not_in_cell h.image_eq hplace ⟨hle, hlt⟩ hcell
      ⟨Nat.le_refl i, Nat.lt_add_of_pos_right hwidth⟩
  · obtain ⟨hstrip, row', place', code', hplace', hbody', hcode', rfl⟩ :=
      hother.exists_body h.members_eq
    -- the emptied body would be this one, with code to lose
    obtain rfl := covers_emptyBody_iff.1 hcovers
    have hread' := hbody'.read_eq
    rw [← hseparate.headerOffset_eq hplace hplace' ⟨hle, hlt⟩, hbody.read_eq] at hread'
    cases hread'
    exact hkept ⟨hstrip, hcode'⟩

/-- The body of a method that a type owns is the same as before, or empty if bodies are stripped. -/
theorem bodyAt_of_hasBody (hchanges : Publishes image members enclosing guard strip changes)
    (h : Loads data m image name members enclosing decls) (hseparate : image.Separate spans strip)
    {type row : Nat} (htype : type ∈ List.range' 1 (image.rows Table.typeDef))
    (hrow : row ∈ (members.methodRange type).rows) {rva : Nat} {place : Body} {code : Bytes}
    (hbody : image.HasBody row place code) (hat : image.bodyAt rva = .ok (place, code)) :
    ∃ place', (image.withData (applyAll data changes)).bodyAt rva =
      .ok (place', if strip then #[] else code) := by
  obtain ⟨-, hmethods⟩ := runs_of_membership h.members_eq
  have hplace : place ∈ image.bodies :=
    mem_bodies.2 ⟨row, (hmethods.owned_iff row).2 ⟨type, htype, hrow⟩, code, hbody⟩
  obtain ⟨offset, haddress, hread⟩ := bodyAt_eq_ok_iff.1 hat
  rw [(layout_of_read h.image_eq).1] at hread
  obtain ⟨hoffset, -, hroom⟩ := Body.header_of_read hread
  by_cases hempty : strip = true ∧ code ≠ #[]
  · -- the first byte becomes the header of an empty body
    obtain ⟨hstrip, hcode⟩ := hempty
    have hemptied : Emptied image members strip (.emptyBody offset) :=
      ⟨type, htype, row, hrow, place, code, hbody,
        emptied_eq_some_iff.2 ⟨hstrip, hcode, by rw [hoffset]⟩⟩
    have hfirst := hchanges.getElem?_of_emptied hemptied hroom
      fun table row column bits first width hbits hcell =>
        hseparate.not_in_cell h.image_eq hplace (hoffset ▸ holds_headerOffset hplace) hcell
    rw [if_pos hstrip]
    exact ⟨_, bodyAt_eq_ok_iff.2 ⟨offset, haddress, Body.read_emptyHeader hfirst⟩⟩
  · have hagree := hchanges.agreeIn_of_kept h hseparate hplace hbody hempty
    have hcode : (if strip then #[] else code) = code := by
      cases strip with
      | false => rfl
      | true => simpa [eq_comm] using hempty
    rw [hcode]
    exact ⟨place, bodyAt_eq_ok_iff.2 ⟨offset, haddress,
      Body.read_congr hread (size_applyAll data changes).symm hagree⟩⟩

end Publishes

end Rereading

end PublicAssembly.Image
