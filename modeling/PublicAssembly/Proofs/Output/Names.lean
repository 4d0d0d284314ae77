import PublicAssembly.Output.Target
import PublicAssembly.Proofs.Files.Outputs

/-!
# Names of copies

The name of a copy is made from the name of its input. It stays one name as long as the suffix that
is put into it does not separate names, so that all copies of a batch go to one directory.

## Main statements

* `Path.plainName_of_fileName?`: a file name is one component of a path;
* `OutputTarget.plainName_defaultName`: so is the name of a copy;
* `OutputTarget.resolve_eq_ok_iff`: where the copies of a batch go.
-/

namespace PublicAssembly

open Reading
open Text (segments)

/-- The pieces that stand for names: all but the empty one and those of one or two points. -/
theorem Component.ofSegment?_eq_name_iff {piece : List Char} {text : String} :
    ofSegment? piece = some (.name text) ↔
      text.toList = piece ∧ piece ≠ [] ∧ piece ≠ ['.'] ∧ piece ≠ ['.', '.'] := by
  have htext : String.ofList piece = text ↔ text.toList = piece := by
    rw [← String.toList_inj, String.toList_ofList, eq_comm]
  unfold ofSegment?
  split
  · simp
  · simp
  · simp
  · next hempty hpoint hpoints =>
    rw [Option.some.injEq, Component.name.injEq, htext]
    exact (and_iff_left ⟨hempty, hpoint, hpoints⟩).symm

namespace Path

/-- What it takes for a text to be one component of a path. -/
theorem plainName_iff {name : String} :
    PlainName name ↔ '/' ∉ name.toList ∧ name.toList ≠ [] ∧ name.toList ≠ ['.'] ∧
      name.toList ≠ ['.', '.'] := by
  constructor
  · intro h
    exact ⟨h.no_separator, (Component.ofSegment?_eq_name_iff.1 h.ofSegment?_eq).2⟩
  · rintro ⟨hseparator, hpiece⟩
    exact ⟨hseparator, Component.ofSegment?_eq_name_iff.2 ⟨rfl, hpiece⟩⟩

/-- The component at the front is no name. -/
theorem ne_name_of_mem_splitFront {cs : List Char} {text : String} :
    Component.name text ∉ (splitFront cs).1 := by
  unfold splitFront
  split <;> simp

/-- A file name is one component of a path. -/
theorem plainName_of_fileName? {path : Path} {name : String} (h : path.fileName? = some name) :
    PlainName name := by
  have hlast : path.components.getLast? = some (.name name) := by
    rw [fileName?] at h
    split at h
    · next text htext =>
      cases h
      exact htext
    · cases h
  have hmem : Component.name name ∈ path.components := List.mem_of_getLast? hlast
  rw [components] at hmem
  -- the front of a path has no names, and a piece of the rest has no separator
  rcases List.mem_append.1 hmem with hfront | hrest
  · exact absurd hfront ne_name_of_mem_splitFront
  · obtain ⟨piece, hpiece, hname⟩ := List.mem_filterMap.1 hrest
    obtain ⟨rfl, hproper⟩ := Component.ofSegment?_eq_name_iff.1 hname
    exact plainName_iff.2 ⟨Text.not_mem_of_mem_segments hpiece, hproper⟩

/-- A stem has text if the name has. -/
theorem splitExtension_ne_nil {name : List Char} (h : name ≠ []) : (splitExtension name).1 ≠ [] := by
  unfold splitExtension
  split
  · simp
  · exact h

end Path

namespace OutputTarget

variable {settings : OutputSettings} {input : Path} {request : Option OutputRequest}

/-- A text that is put into a name other than a point makes neither a point nor two of them. -/
theorem append_ne_points {stem suffix tail : List Char} (hstem : stem ≠ []) (hsuffix : suffix ≠ [])
    (hpoint : stem ++ tail ≠ ['.']) :
    stem ++ suffix ++ tail ≠ [] ∧ stem ++ suffix ++ tail ≠ ['.'] ∧
      stem ++ suffix ++ tail ≠ ['.', '.'] := by
  obtain ⟨c, cs, rfl⟩ := List.exists_cons_of_ne_nil hstem
  obtain ⟨d, ds, rfl⟩ := List.exists_cons_of_ne_nil hsuffix
  refine ⟨List.append_ne_nil_of_left_ne_nil (by simp) _, fun heq => ?_, fun heq => ?_⟩
  · have hlength := congrArg List.length heq
    simp at hlength
  · -- then the name was the first of the two points
    have hlength := congrArg List.length heq
    simp only [List.length_append, List.length_cons, List.length_nil] at hlength
    obtain rfl : cs = [] := List.eq_nil_of_length_eq_zero (by omega)
    obtain rfl : tail = [] := List.eq_nil_of_length_eq_zero (by omega)
    rw [List.cons_append, List.cons_append, List.cons.injEq] at heq
    rw [heq.1] at hpoint
    exact hpoint rfl

/-- A suffix that separates no names makes a name out of a name. -/
theorem plainName_suffixedName {name : String} {suffix : List Char} (hname : Path.PlainName name)
    (hsuffix : '/' ∉ suffix) : Path.PlainName (String.ofList (suffixedName name.toList suffix)) := by
  obtain ⟨hseparator, hempty, hpoint, hpoints⟩ := Path.plainName_iff.1 hname
  rw [Path.plainName_iff, String.toList_ofList]
  by_cases hblank : suffix = []
  · rw [hblank, suffixedName_nil]
    exact ⟨hseparator, hempty, hpoint, hpoints⟩
  · -- the suffix stands between the stem, which has text, and what follows it
    have hwhole := Path.splitExtension_append name.toList
    have hstem := Path.splitExtension_ne_nil hempty
    rw [suffixedName]
    rcases hparts : Path.splitExtension name.toList with ⟨stem, extension⟩
    rw [hparts] at hwhole hstem
    dsimp only at hwhole hstem ⊢
    generalize (extension.map ('.' :: ·)).getD [] = tail at hwhole ⊢
    rw [← hwhole] at hseparator hpoint
    refine ⟨?_, append_ne_points hstem hblank hpoint⟩
    rw [List.mem_append, not_or] at hseparator
    simp [hseparator, hsuffix]

/-- The name of a copy is one component of a path. -/
theorem plainName_defaultName (hsuffix : '/' ∉ settings.suffix.toList) {name : String}
    (h : defaultName settings input = .ok name) : Path.PlainName name := by
  rw [defaultName] at h
  split at h
  · cases h
  · next own hown =>
    cases h
    exact plainName_suffixedName (Path.plainName_of_fileName? hown) hsuffix

/-- The directory for the copies of a batch. -/
def batchDirectory (settings : OutputSettings) (request : Option OutputRequest) : Path :=
  (request.bind OutputRequest.directory).getD settings.directory

/-- A request without a file name sends copies to one directory under the names that are made for
them. -/
theorem resolve_eq_ok_iff (hrequest : requestedName? request = none) {target : OutputTarget} :
    resolve settings input request = .ok target ↔
      target.directory = batchDirectory settings request ∧
        defaultName settings input = .ok target.fileName := by
  rw [resolve, hrequest]
  simp only [bind_eq_ok_iff, pure_eq_ok_iff]
  constructor
  · rintro ⟨name, hname, rfl⟩
    exact ⟨rfl, hname⟩
  · rintro ⟨hdirectory, hname⟩
    refine ⟨_, hname, ?_⟩
    rw [OutputTarget.mk.injEq]
    exact ⟨hdirectory.symm, rfl⟩

end OutputTarget

end PublicAssembly
