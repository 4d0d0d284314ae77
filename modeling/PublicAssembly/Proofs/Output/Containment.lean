import PublicAssembly.Proofs.Batch.Publication
import PublicAssembly.Proofs.Output.Names

/-!
# Copies stay in their directory

A copy goes directly into the directory of its target if its file name is one component of a path.
The names that requests ask for are, and a name that is made with a suffix is one exactly if the
suffix does not separate names.

## Main definitions

* `OutputTarget.DirectChild`: the copy goes directly into the directory of the target;
* `OutputRequest.Asked`: what an output argument can ask for.

## Main statements

* `Path.components_join`: a name in a directory is one more component;
* `OutputTarget.directChild_iff`: it takes no more than a name that is one component;
* `OutputTarget.exists_resolve`: with a suffix that separates no names the copy of every input that
  has a file name goes directly into its directory;
* `OutputTarget.directChild_iff_of_resolve`: with another suffix no copy does whose name is made.
-/

namespace PublicAssembly

open Reading
open Text (segments)

namespace Path

/-! ### Components -/

/-- A path is that of its characters. -/
theorem ofChars_eq {path : Path} {cs : List Char} (h : path.chars = cs) : path = ofChars cs := by
  rw [← h, ofChars, chars, String.ofList_toList]

/-- Characters that begin neither at the root nor with a point of their own have no front. -/
theorem splitFront_eq_self {cs : List Char} (hroot : ∀ rest, cs ≠ '/' :: rest)
    (hcurrent : cs ≠ ['.']) (hpoint : ∀ rest, cs ≠ '.' :: '/' :: rest) :
    splitFront cs = ([], [], cs) := by
  unfold splitFront
  split
  · next rest => exact absurd rfl (hroot rest)
  · exact absurd rfl hcurrent
  · next rest => exact absurd rfl (hpoint rest)
  · rfl

/-- What stands behind a slash is not part of the front. -/
theorem splitFront_append_slash {cs : List Char} (h : cs ≠ []) (more : List Char) :
    splitFront (cs ++ '/' :: more) =
      ((splitFront cs).1, (splitFront cs).2.1, (splitFront cs).2.2 ++ '/' :: more) := by
  fun_cases splitFront cs with
  | case1 rest => rfl
  | case2 => rfl
  | case3 rest => rfl
  | case4 cs hroot hcurrent hpoint =>
    obtain ⟨c, cs, rfl⟩ := List.exists_cons_of_ne_nil h
    apply splitFront_eq_self
    · intro rest heq
      rw [List.cons_append, List.cons.injEq] at heq
      exact hroot cs (by rw [heq.1])
    · intro heq
      simp at heq
    · -- the slash would be the one that was put behind a point alone, or one of the text itself
      intro rest heq
      rw [List.cons_append, List.cons.injEq] at heq
      obtain ⟨rfl, heq⟩ := heq
      cases cs with
      | nil => exact hcurrent rfl
      | cons d cs =>
        rw [List.cons_append, List.cons.injEq] at heq
        exact hpoint cs (by rw [heq.1])

/-- The components behind a slash come behind those in front of it. -/
theorem components_append_slash {cs : List Char} (h : cs ≠ []) (more : List Char) :
    (ofChars (cs ++ '/' :: more)).components =
      (ofChars cs).components ++ (segments '/' more).filterMap Component.ofSegment? := by
  simp only [components, chars_ofChars, splitFront_append_slash h]
  rw [Text.segments_append_cons, List.filterMap_append, List.append_assoc]

variable {name : String}

/-- A plain name is all there is of a path that it is the text of. -/
theorem PlainName.filterMap_segments (hname : PlainName name) :
    (segments '/' name.toList).filterMap Component.ofSegment? = [.name name] := by
  rw [Text.segments_of_not_mem hname.no_separator, List.filterMap_cons_some hname.ofSegment?_eq,
    List.filterMap_nil]

/-- A plain name is the one component of its path. -/
theorem components_of_plainName (hname : PlainName name) : (mk name).components = [.name name] := by
  obtain ⟨hseparator, -, hpoint, -⟩ := plainName_iff.1 hname
  -- a plain name is neither a root nor a point at the front
  have hfront : splitFront name.toList = ([], [], name.toList) := by
    refine splitFront_eq_self ?_ hpoint ?_
    · intro rest heq
      rw [heq] at hseparator
      exact hseparator List.mem_cons_self
    · intro rest heq
      rw [heq] at hseparator
      exact hseparator (List.mem_cons_of_mem _ List.mem_cons_self)
  simp only [components, chars, hfront]
  exact hname.filterMap_segments

/-- A path without text has no component. -/
theorem components_of_isEmpty {path : Path} (h : path.isEmpty = true) : path.components = [] := by
  rw [components, List.isEmpty_iff.1 h]
  rfl

/-- A name in a directory is one more component. -/
theorem components_join (hname : PlainName name) (directory : Path) :
    (directory.join ⟨name⟩).components = directory.components ++ [.name name] := by
  by_cases hempty : directory.isEmpty = true
  · rw [join_of_isEmpty hempty, components_of_plainName hname, components_of_isEmpty hempty,
      List.nil_append]
  · rw [Bool.not_eq_true] at hempty
    -- a slash at the end of the directory makes no component of its own
    obtain ⟨front, hjoin, hchars⟩ := chars_join hname hempty
    rw [ofChars_eq hjoin]
    by_cases hroot : front = []
    · -- the directory is the root
      subst hroot
      rcases hchars with hchars | hchars
      · simp [isEmpty, hchars] at hempty
      · rw [ofChars_eq hchars]
        simp only [components, chars_ofChars, List.nil_append, splitFront]
        rw [hname.filterMap_segments]
        rfl
    · rw [components_append_slash hroot, hname.filterMap_segments]
      rcases hchars with hchars | hchars
      · rw [ofChars_eq hchars]
      · rw [ofChars_eq hchars, components_append_slash hroot]
        simp [segments, Component.ofSegment?]

end Path

/-! ### Targets -/

namespace OutputTarget

variable {target : OutputTarget}

/-- The copy goes directly into the directory of the target. -/
structure DirectChild (target : OutputTarget) : Prop where
  /-- The file name is one component of a path. -/
  plainName : Path.PlainName target.fileName
  /-- The path of the copy has this component behind those of the directory. -/
  components_path : target.path.components = target.directory.components ++ [.name target.fileName]
  /-- When the directory has been made, the path leads to a place in it, if anywhere. -/
  locate_path : ∀ files made found, target.ensureDirectory.ends files = (made, .ok ()) →
    made.locate target.path = .ok found →
      ∃ place, made.Opens target.directory place ∧ found = place ++ [target.fileName]

/-- Whether a copy goes directly into its directory depends on its file name alone. -/
theorem directChild_iff : DirectChild target ↔ Path.PlainName target.fileName := by
  refine ⟨DirectChild.plainName, fun hname => ⟨hname, ?_, ?_⟩⟩
  · exact Path.components_join hname target.directory
  · intro files made found hmade hfound
    rw [ends_ensureDirectory, Prod.mk.injEq, mapError_eq_ok_iff] at hmade
    exact FileTree.locate_join_of_makeDirectoryPath (Prod.ext hmade.1 hmade.2) hname hfound

/-- A suffix that separates names makes no name out of a name. -/
theorem not_plainName_suffixedName {suffix : List Char} (hsuffix : '/' ∈ suffix)
    (name : List Char) : ¬ Path.PlainName (String.ofList (suffixedName name suffix)) := by
  intro hplain
  refine hplain.no_separator ?_
  rw [String.toList_ofList, suffixedName]
  simp [hsuffix]

end OutputTarget

/-! ### Requests -/

namespace OutputRequest

/-- What an output argument can ask for: nothing if there is none, what it is read as, or the
directory that inputs share. -/
inductive Asked : Option OutputRequest → Prop where
  /-- There is no output argument. -/
  | none : Asked none
  /-- The argument is read as the request. -/
  | parsed {files : FileTree} {argument : String} {request : OutputRequest}
    (h : parse files argument = .ok request) : Asked (some request)
  /-- Inputs share the directory. -/
  | shared {request : OutputRequest} (h : Asked (some request)) : Asked (some request.toDirectory)

/-- A file name that is asked for is one component of a path. -/
theorem plainName_of_parse {files : FileTree} {argument name : String} {request : OutputRequest}
    (h : parse files argument = .ok request) (hname : request.fileName = some name) :
    Path.PlainName name := by
  simp only [parse, ite_error_eq_ok_iff] at h
  obtain ⟨-, -, h⟩ := h
  -- only a request of the last kind has a file name
  split at h
  · rw [Except.ok.injEq] at h
    rw [← h, ofDirectory] at hname
    cases hname
  · split at h
    · rw [Except.ok.injEq] at h
      rw [← h, ofDirectory] at hname
      cases hname
    · rw [ofPath] at h
      split at h
      · cases h
      · next last hlast =>
        rw [Except.ok.injEq] at h
        rw [← h, Option.some.injEq] at hname
        exact Path.plainName_of_fileName? (hname ▸ hlast)

/-- Inputs that share a directory have no file name asked for. -/
theorem fileName_toDirectory (request : OutputRequest) : request.toDirectory.fileName = .none := by
  obtain ⟨_ | directory, _ | name⟩ := request <;> rfl

/-- A file name that is asked for is one component of a path. -/
theorem Asked.plainName {request : Option OutputRequest} (h : Asked request) {name : String}
    (hname : OutputTarget.requestedName? request = some name) : Path.PlainName name := by
  cases h with
  | none => cases hname
  | parsed h => exact plainName_of_parse h hname
  | shared h =>
    -- the name is part of the directory then
    rw [OutputTarget.requestedName?, Option.bind_some, fileName_toDirectory] at hname
    cases hname

end OutputRequest

/-! ### Where copies go -/

namespace OutputTarget

variable {settings : OutputSettings} {input : Path} {request : Option OutputRequest}

/-- With a suffix that separates no names, the copy of every input that has a file name goes
directly into its directory. -/
theorem exists_resolve (hsuffix : '/' ∉ settings.suffix.toList)
    (hrequest : OutputRequest.Asked request) {own : String} (hinput : input.fileName? = some own) :
    ∃ target, resolve settings input request = .ok target ∧
      target.directory = batchDirectory settings request ∧ DirectChild target := by
  -- the name is the one that is asked for, or else it is made with the suffix
  cases hname : requestedName? request with
  | some name =>
    refine ⟨⟨batchDirectory settings request, name⟩, ?_, rfl, ?_⟩
    · rw [resolve, hname]
      rfl
    · exact directChild_iff.2 (hrequest.plainName hname)
  | none =>
    have hdefault : defaultName settings input =
        .ok (String.ofList (suffixedName own.toList settings.suffix.toList)) := by
      rw [defaultName, hinput]
    refine ⟨⟨batchDirectory settings request, _⟩, (resolve_eq_ok_iff hname).2 ⟨rfl, hdefault⟩, rfl, ?_⟩
    exact directChild_iff.2 (plainName_defaultName hsuffix hdefault)

/-- A copy whose name is made goes directly into its directory exactly if the suffix does not
separate names. -/
theorem directChild_iff_of_resolve (hname : requestedName? request = none) {target : OutputTarget}
    (h : resolve settings input request = .ok target) :
    DirectChild target ↔ '/' ∉ settings.suffix.toList := by
  obtain ⟨-, hdefault⟩ := (resolve_eq_ok_iff hname).1 h
  rw [directChild_iff]
  refine ⟨fun hplain hsuffix => ?_, fun hsuffix => plainName_defaultName hsuffix hdefault⟩
  rw [defaultName] at hdefault
  split at hdefault
  · cases hdefault
  · next own _ =>
    rw [Except.ok.injEq] at hdefault
    rw [← hdefault] at hplain
    exact not_plainName_suffixedName hsuffix own.toList hplain

end OutputTarget

end PublicAssembly
