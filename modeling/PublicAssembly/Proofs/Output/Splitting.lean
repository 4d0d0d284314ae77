import PublicAssembly.Proofs.Output.Distinct

/-!
# Splitting an output argument

An output argument is split into a directory and a file name, unless it is a directory already. Text
may be lost at the cut: slashes side by side, points that stand for nothing. But the place that is
asked for stays the same, because a path is its parent and one more component. So it does not matter
for inputs that share a directory whether it was there when the argument was read.

## Main definitions

* `Path.EndsInName`: a file name is what a path ends in;
* `OutputRequest.EndsInSeparator`: an argument that asks for a directory;
* `OutputRequest.Unusable`: an argument that asks for nothing;
* `OutputRequest.Splits`: how a request keeps what its argument says.

## Main statements

* `Path.components_of_parent?`: a path is its parent and one more component;
* `Path.fileName?_eq_some_iff`: which file name a path has;
* `OutputRequest.parse_splits`: what an output argument is read as.
-/

namespace PublicAssembly

open Reading
open Text (segments joinWith)

/-- The pieces that are no components: the empty one and that of one point. -/
theorem Component.ofSegment?_eq_none_iff {piece : List Char} :
    ofSegment? piece = none ↔ piece = [] ∨ piece = ['.'] := by
  unfold ofSegment?
  split <;> simp_all

namespace Path

variable {path above : Path} {name : String}

/-! ### A path and its parent -/

/-- The text at the front is a path of the components at the front. -/
theorem components_splitFront (cs : List Char) :
    (ofChars (splitFront cs).2.1).components = (splitFront cs).1 := by
  fun_cases splitFront cs with
  | case1 rest => simp [components, splitFront, segments, Component.ofSegment?]
  | case2 => rfl
  | case3 rest => simp [components, splitFront, segments, Component.ofSegment?]
  | case4 => rfl

/-- A path with a parent is its parent and one more component. -/
theorem components_of_parent? (h : path.parent? = some above) :
    (path.components = [.current] ∧ above = empty) ∨
      ∃ component, path.components = above.components ++ [component] := by
  refine (exists_pieces_of_parent? h).imp_right ?_
  rintro ⟨kept, before, last, behind, hpieces, habove, hkept, hsilent, component, hlast⟩
  refine ⟨component, ?_⟩
  have hbehind : (before ++ last :: behind).filterMap Component.ofSegment? = [component] := by
    have hleft : before.filterMap Component.ofSegment? = [] :=
      List.filterMap_eq_nil_iff.2 fun piece hpiece => hsilent piece (List.mem_append_left _ hpiece)
    have hright : behind.filterMap Component.ofSegment? = [] :=
      List.filterMap_eq_nil_iff.2 fun piece hpiece => hsilent piece (List.mem_append_right _ hpiece)
    rw [List.filterMap_append, hleft, List.filterMap_cons_some hlast, hright, List.nil_append]
  rcases hkept with rfl | ⟨piece, hpiece, hne⟩
  · -- nothing but the front is left for the parent
    rw [habove, joinWith, List.append_nil, components_splitFront, components]
    dsimp only
    rw [hpieces, List.nil_append, hbehind]
  · -- the parent ends where the slash behind its last piece stands
    obtain ⟨c, hc⟩ := List.exists_mem_of_ne_nil piece hne
    have htext : (splitFront path.chars).2.1 ++ joinWith '/' kept ≠ [] := by
      have hmem : c ∈ joinWith '/' kept := Text.mem_joinWith_of_mem hpiece hc
      exact List.append_ne_nil_of_right_ne_nil _ (List.ne_nil_of_mem hmem)
    have hseparator : ∀ piece ∈ before ++ last :: behind, '/' ∉ piece := by
      intro piece hpiece
      have hmem : piece ∈ segments '/' (splitFront path.chars).2.2 := by
        rw [hpieces, List.append_assoc]
        exact List.mem_append_right _ hpiece
      exact Text.not_mem_of_mem_segments hmem
    have hchars : path.chars = (splitFront path.chars).2.1 ++ joinWith '/' kept ++
        '/' :: joinWith '/' (before ++ last :: behind) := by
      rw [List.append_assoc, ← Text.joinWith_append (List.ne_nil_of_mem hpiece) (by simp),
        ← List.append_assoc, ← hpieces, Text.joinWith_segments, splitFront_append]
    rw [ofChars_eq hchars, components_append_slash htext, habove,
      Text.segments_joinWith (by simp) hseparator, hbehind]

/-- The parent of a path with a file name is what stands in front of the name. -/
theorem components_of_fileName? (h : path.parent? = some above)
    (hname : path.fileName? = some name) :
    path.components = above.components ++ [.name name] := by
  rw [fileName?] at hname
  rcases components_of_parent? h with ⟨hcurrent, -⟩ | ⟨component, hcomponents⟩
  · rw [hcurrent] at hname
    cases hname
  · rw [hcomponents, List.getLast?_append, List.getLast?_singleton, Option.some_or] at hname
    split at hname
    · next text htext =>
      cases hname
      rw [hcomponents, Option.some.inj htext]
    · cases hname

/-- A path with a file name has a parent. -/
theorem exists_parent?_of_fileName? (h : path.fileName? = some name) :
    ∃ above, path.parent? = some above := by
  have hcomponents := @components_of_trimmedReverse path
  have hfront : Component.name name ∉ (splitFront path.chars).1 := ne_name_of_mem_splitFront
  unfold parent?
  generalize splitFront path.chars = split at hcomponents hfront ⊢
  obtain ⟨front, text, rest⟩ := split
  dsimp only at hcomponents hfront ⊢
  cases htrimmed : trimmedReverse (segments '/' rest) with
  | nil =>
    -- the file name would be a component at the front
    rw [fileName?, hcomponents htrimmed] at h
    split at h
    · next last hlast =>
      cases h
      exact absurd (List.mem_of_getLast? hlast) hfront
    · cases h
  | cons last before => exact ⟨_, rfl⟩

/-! ### File names -/

/-- The path ends in the name: behind it are empty pieces and single points alone. Neither a point
nor two points are a name. -/
def EndsInName (path : Path) (name : String) : Prop :=
  ∃ front behind, segments '/' path.chars = front ++ name.toList :: behind ∧
    name.toList ≠ [] ∧ name.toList ≠ ['.'] ∧ name.toList ≠ ['.', '.'] ∧
    ∀ piece ∈ behind, piece = [] ∨ piece = ['.']

/-- All pieces of a path give its components, apart from the one at the front. -/
theorem components_eq (path : Path) :
    path.components =
      (splitFront path.chars).1 ++ (segments '/' path.chars).filterMap Component.ofSegment? := by
  rw [components]
  generalize path.chars = cs
  fun_cases splitFront cs with
  | case1 rest =>
    -- the slash at the root has nothing in front of it
    have hpieces : segments '/' ('/' :: rest) = [] :: segments '/' rest := rfl
    rw [hpieces, List.filterMap_cons_none rfl]
  | case2 => rfl
  | case3 rest =>
    have hpieces : segments '/' ('.' :: '/' :: rest) = ['.'] :: segments '/' rest := rfl
    have hrest : segments '/' ('/' :: rest) = [] :: segments '/' rest := rfl
    dsimp only
    rw [hpieces, hrest, List.filterMap_cons_none rfl, List.filterMap_cons_none rfl]
  | case4 => rfl

/-- Which file name a path has. -/
theorem fileName?_eq_some_iff : path.fileName? = some name ↔ path.EndsInName name := by
  have hlast : path.fileName? = some name ↔ path.components.getLast? = some (.name name) := by
    rw [fileName?]
    split <;> simp_all
  rw [hlast, components_eq, EndsInName]
  constructor
  · intro h
    obtain ⟨shown, hshown⟩ := List.getLast?_eq_some_iff.1 h
    -- the component at the front is no name, so the last piece that says something is one
    rcases List.append_eq_append_iff.1 hshown with ⟨more, -, hmore⟩ | ⟨more, hfront, hmore⟩
    · obtain ⟨front, rest, hpieces, -, hrest⟩ := List.filterMap_eq_append_iff.1 hmore
      obtain ⟨silent, piece, behind, rfl, -, hpiece, hbehind⟩ := List.filterMap_eq_cons_iff.1 hrest
      obtain ⟨rfl, hproper⟩ := Component.ofSegment?_eq_name_iff.1 hpiece
      refine ⟨front ++ silent, behind, by rw [hpieces, List.append_assoc], hproper.1, hproper.2.1,
        hproper.2.2, fun other hother => ?_⟩
      exact Component.ofSegment?_eq_none_iff.1 (List.filterMap_eq_nil_iff.1 hbehind other hother)
    · cases more with
      | nil =>
        rw [List.nil_append] at hmore
        obtain ⟨silent, piece, behind, hpieces, -, hpiece, hbehind⟩ :=
          List.filterMap_eq_cons_iff.1 hmore.symm
        obtain ⟨rfl, hproper⟩ := Component.ofSegment?_eq_name_iff.1 hpiece
        refine ⟨silent, behind, hpieces, hproper.1, hproper.2.1, hproper.2.2, fun other hother => ?_⟩
        exact Component.ofSegment?_eq_none_iff.1 (List.filterMap_eq_nil_iff.1 hbehind other hother)
      | cons component more =>
        rw [List.cons_append, List.cons.injEq] at hmore
        have hnone : Component.name name ∉ (splitFront path.chars).1 := ne_name_of_mem_splitFront
        rw [hfront, hmore.1] at hnone
        exact absurd (List.mem_append_right _ List.mem_cons_self) hnone
  · rintro ⟨front, behind, hpieces, hempty, hpoint, hpoints, hbehind⟩
    have hname : Component.ofSegment? name.toList = some (.name name) :=
      Component.ofSegment?_eq_name_iff.2 ⟨rfl, hempty, hpoint, hpoints⟩
    have hsilent : behind.filterMap Component.ofSegment? = [] :=
      List.filterMap_eq_nil_iff.2 fun piece hpiece =>
        Component.ofSegment?_eq_none_iff.2 (hbehind piece hpiece)
    rw [hpieces, List.filterMap_append, List.filterMap_cons_some hname, hsilent, ← List.append_assoc,
      List.getLast?_append, List.getLast?_singleton, Option.some_or]

end Path

namespace OutputRequest

open OutputTarget (resolve)

variable {files : FileTree} {argument text : String} {request : OutputRequest}

/-! ### Arguments -/

/-- The text ends with a slash or a backslash. -/
def EndsInSeparator (text : String) : Prop :=
  ∃ c, text.toList.getLast? = some c ∧ (c = '/' ∨ c = '\\')

theorem isSeparator_iff {c : Char} : isSeparator c = true ↔ c = '/' ∨ c = '\\' := by
  simp [isSeparator]

theorem endsWithSeparator_iff : endsWithSeparator text.toList = true ↔ EndsInSeparator text := by
  rw [endsWithSeparator, EndsInSeparator]
  split
  · next c hc => simp [hc, isSeparator_iff]
  · next hnone => simp [hnone]

/-- An argument that asks for nothing: it is empty, no path may hold it, or it is neither a
directory nor a path that ends in a name. -/
def Unusable (files : FileTree) (text : String) : Prop :=
  text = "" ∨ '\x00' ∈ text.toList ∨
    (¬ EndsInSeparator text ∧ files.hasDirectory ⟨text⟩ = false ∧
      ∀ name, ¬ Path.EndsInName ⟨text⟩ name)

/-- What it takes for an argument to be read as a request: it ends with separators, or is a
directory, or ends in a name. -/
theorem parse_eq_ok_iff :
    parse files argument = .ok request ↔
      (Text.trim argument ≠ "" ∧ '\x00' ∉ (Text.trim argument).toList) ∧
        ((EndsInSeparator (Text.trim argument) ∧
            request = ofDirectory (.ofChars (dropSeparators (Text.trim argument).toList))) ∨
          (¬ EndsInSeparator (Text.trim argument) ∧
            ((files.hasDirectory ⟨Text.trim argument⟩ = true ∧
                request = ofDirectory ⟨Text.trim argument⟩) ∨
              (files.hasDirectory ⟨Text.trim argument⟩ = false ∧
                ofPath ⟨Text.trim argument⟩ = .ok request)))) := by
  rw [parse]
  generalize Text.trim argument = text
  have hempty : text.toList.isEmpty = true ↔ text = "" := by
    rw [List.isEmpty_iff, String.toList_eq_nil_iff]
  -- the tests come one after another, each where the one before it has failed
  rw [ite_error_eq_ok_iff, ite_error_eq_ok_iff, hempty, List.contains_iff_mem,
    ← endsWithSeparator_iff, and_assoc]
  refine and_congr_right fun _ => and_congr_right fun _ => ?_
  by_cases hends : endsWithSeparator text.toList = true
  · rw [if_pos hends, Except.ok.injEq, @eq_comm _ _ request]
    simp [hends]
  · rw [if_neg hends]
    by_cases hthere : files.hasDirectory ⟨text⟩ = true
    · rw [if_pos hthere, Except.ok.injEq, @eq_comm _ _ request]
      simp [hends, hthere]
    · rw [if_neg hthere]
      simp [hends, hthere]

/-- What it takes to split a path: it ends in a name. -/
theorem exists_ofPath_iff {path : Path} :
    (∃ request, ofPath path = .ok request) ↔ ∃ name, path.EndsInName name := by
  simp only [← Path.fileName?_eq_some_iff, ofPath]
  cases path.fileName? <;> simp

/-- An argument is refused exactly if it asks for nothing. -/
theorem exists_fault_iff :
    (∃ fault, parse files argument = .error fault) ↔ Unusable files (Text.trim argument) := by
  -- an argument is refused if no request can be read from it
  have hread : (∃ fault, parse files argument = .error fault) ↔
      ¬ ∃ request, parse files argument = .ok request := by
    cases parse files argument <;> simp
  rw [hread, Unusable, ← not_exists, ← exists_ofPath_iff]
  simp only [parse_eq_ok_iff]
  by_cases hempty : Text.trim argument = ""
  · simp [hempty]
  · by_cases hnul : '\x00' ∈ (Text.trim argument).toList
    · simp [hnul]
    · by_cases hends : EndsInSeparator (Text.trim argument)
      · simp [hempty, hnul, hends]
      · cases hthere : files.hasDirectory ⟨Text.trim argument⟩ <;> simp [hempty, hnul, hends]

/-! ### Requests -/

/-- A path that is split is its directory and its name put together. -/
theorem sameAs_of_ofPath {path : Path} (h : ofPath path = .ok request) :
    ∃ name, request.fileName = some name ∧ Path.PlainName name ∧
      ((request.directory = none ∧ (Path.mk name).sameAs path = true) ∨
        ∃ directory, request.directory = some directory ∧
          (directory.join ⟨name⟩).sameAs path = true) := by
  rw [ofPath] at h
  split at h
  · cases h
  · next name hname =>
    cases h
    have hplain := Path.plainName_of_fileName? hname
    obtain ⟨above, habove⟩ := Path.exists_parent?_of_fileName? hname
    have hcomponents := Path.components_of_fileName? habove hname
    refine ⟨name, rfl, hplain, ?_⟩
    simp only [habove, Path.sameAs, beq_iff_eq]
    -- a name alone has a parent without a text, and the request has no directory then
    by_cases hempty : above.isEmpty = true
    · refine .inl ⟨by simp [hempty], ?_⟩
      rw [hcomponents, Path.components_of_plainName hplain, Path.components_of_isEmpty hempty,
        List.nil_append]
    · refine .inr ⟨above, by simp [hempty], ?_⟩
      rw [hcomponents, Path.components_join hplain]

/-- All of a path that is split, taken for a directory, is the path. -/
theorem toDirectory_of_ofPath {path : Path} (h : ofPath path = .ok request) :
    ∃ directory, request.toDirectory = ofDirectory directory ∧ directory.sameAs path = true := by
  obtain ⟨name, hname, -, ⟨hnone, hsame⟩ | ⟨directory, hdirectory, hsame⟩⟩ := sameAs_of_ofPath h
  · exact ⟨⟨name⟩, by rw [toDirectory, hnone, hname], hsame⟩
  · exact ⟨directory.join ⟨name⟩, by rw [toDirectory, hdirectory, hname], hsame⟩

/-- The separators at the end of a text are dropped, but not its first character. -/
theorem dropSeparators_eq (cs : List Char) :
    ∃ kept separators, cs = kept ++ separators ∧ (∀ c ∈ separators, c = '/' ∨ c = '\\') ∧
      (∀ c, kept.getLast? = some c → c ≠ '/' ∧ c ≠ '\\') ∧
      dropSeparators cs = if kept = [] then cs.take 1 else kept := by
  refine ⟨cs.rdropWhile isSeparator, cs.rtakeWhile isSeparator,
    List.rdropWhile_append_rtakeWhile.symm, fun c hc => ?_, fun c hc => ?_, ?_⟩
  · exact isSeparator_iff.1 (List.mem_rtakeWhile_imp hc)
  · -- what is kept ends where no separator stands any more
    have hne : cs.rdropWhile isSeparator ≠ [] := by
      intro hnil
      rw [hnil] at hc
      cases hc
    rw [List.getLast?_eq_some_getLast hne, Option.some.injEq] at hc
    rw [← not_or, ← isSeparator_iff, ← hc]
    exact List.rdropWhile_last_not _ _ hne
  · rw [dropSeparators, ← List.rdropWhile]
    split
    · next hnil => rw [if_pos hnil]
    · next hne => rw [if_neg hne]

/-- How a request keeps what its argument says. -/
structure Splits (text : String) (request : OutputRequest) : Prop where
  /-- If the argument does not end with a separator, all of it taken for a directory is the same
  path. -/
  toDirectory_eq : ¬ EndsInSeparator text →
    ∃ directory, request.toDirectory = ofDirectory directory ∧ directory.sameAs ⟨text⟩ = true
  /-- If it has a directory and a name, copies go to the same path, whatever the input. -/
  path_eq : ¬ EndsInSeparator text →
    ∀ directory name, request = { directory := some directory, fileName := some name } →
      ∀ settings input, ∃ target, resolve settings input (some request) = .ok target ∧
        target.path.sameAs ⟨text⟩ = true
  /-- If the argument ends with separators, it asks for the directory without them, or for that of
  its first character if there is nothing else. -/
  ofDirectory_eq : EndsInSeparator text →
    ∃ kept separators, text.toList = kept ++ separators ∧
      (∀ c ∈ separators, c = '/' ∨ c = '\\') ∧
      (∀ c, kept.getLast? = some c → c ≠ '/' ∧ c ≠ '\\') ∧
      request = ofDirectory (.ofChars (if kept = [] then text.toList.take 1 else kept))

/-- A request keeps what its argument says. -/
theorem splits_of_parse (h : parse files argument = .ok request) :
    Splits (Text.trim argument) request := by
  obtain ⟨-, ⟨hends, rfl⟩ | ⟨hends, hrest⟩⟩ := parse_eq_ok_iff.1 h
  · refine ⟨fun hnot => absurd hends hnot, fun hnot => absurd hends hnot, fun _ => ?_⟩
    obtain ⟨kept, separators, htext, hseparators, hkept, hdrop⟩ :=
      dropSeparators_eq (Text.trim argument).toList
    exact ⟨kept, separators, htext, hseparators, hkept, by rw [hdrop]⟩
  · refine ⟨fun _ => ?_, fun _ directory name hboth settings input => ?_,
      fun hyes => absurd hyes hends⟩
    · rcases hrest with ⟨-, rfl⟩ | ⟨-, hpath⟩
      · exact ⟨⟨Text.trim argument⟩, rfl, by simp [Path.sameAs]⟩
      · exact toDirectory_of_ofPath hpath
    · refine ⟨⟨directory, name⟩, by rw [hboth]; rfl, ?_⟩
      rcases hrest with ⟨-, rfl⟩ | ⟨-, hpath⟩
      · -- a directory that is there has no name
        cases hboth
      · obtain ⟨other, hother, -, ⟨hnone, -⟩ | ⟨above, habove, hsame⟩⟩ := sameAs_of_ofPath hpath
        · rw [hboth] at hnone
          cases hnone
        · rw [hboth] at hother habove
          cases hother
          cases habove
          exact hsame

/-- Several inputs go to the directory that all of the argument stands for. -/
theorem exists_resolve_shared (h : parse files argument = .ok request)
    (hends : ¬ EndsInSeparator (Text.trim argument)) (settings : OutputSettings)
    {inputs : List Path} (hseveral : 1 < inputs.length) {input : Path} {own : String}
    (hown : input.fileName? = some own) :
    ∃ target, resolve settings input (Batch.sharedRequest inputs (some request)) = .ok target ∧
      target.directory.sameAs ⟨Text.trim argument⟩ = true := by
  obtain ⟨directory, hdirectory, hsame⟩ := (splits_of_parse h).toDirectory_eq hends
  have hshared : Batch.sharedRequest inputs (some request) = some (ofDirectory directory) := by
    rw [Batch.sharedRequest, if_pos hseveral, Option.map_some, hdirectory]
  rw [hshared]
  exact ⟨⟨directory, _⟩, (OutputTarget.resolve_eq_ok_iff rfl).2
    ⟨rfl, OutputTarget.defaultName_eq settings hown⟩, hsame⟩

/-- An output argument is refused exactly if it asks for nothing, and otherwise the request keeps
what it says. So several inputs go to the same directory whether or not it was there when the
argument was read. -/
theorem parse_splits (argument : String) :
    (∀ files, (∃ fault, parse files argument = .error fault) ↔
      Unusable files (Text.trim argument)) ∧
    (∀ files request, parse files argument = .ok request → Splits (Text.trim argument) request) ∧
    (∀ files files' request request', parse files argument = .ok request →
      parse files' argument = .ok request' → ¬ EndsInSeparator (Text.trim argument) →
        ∀ settings inputs input own, 1 < inputs.length → input.fileName? = some own →
          ∃ target target',
            resolve settings input (Batch.sharedRequest inputs (some request)) = .ok target ∧
            resolve settings input (Batch.sharedRequest inputs (some request')) = .ok target' ∧
            target.directory.sameAs target'.directory = true ∧
            target.fileName = target'.fileName) := by
  refine ⟨fun files => exists_fault_iff, fun files request => splits_of_parse, ?_⟩
  intro files files' request request' h h' hends settings inputs input own hseveral hown
  obtain ⟨target, htarget, hsame⟩ := exists_resolve_shared h hends settings hseveral hown
  obtain ⟨target', htarget', hsame'⟩ := exists_resolve_shared h' hends settings hseveral hown
  refine ⟨target, target', htarget, htarget', ?_, ?_⟩
  · rw [Path.sameAs, beq_iff_eq] at hsame hsame' ⊢
    rw [hsame, hsame']
  · have hnone := Batch.requestedName?_sharedRequest hseveral (some request)
    have hnone' := Batch.requestedName?_sharedRequest hseveral (some request')
    have hcopy := ((OutputTarget.resolve_eq_ok_iff hnone).1 htarget).2
    have hcopy' := ((OutputTarget.resolve_eq_ok_iff hnone').1 htarget').2
    exact Except.ok.inj (hcopy.symm.trans hcopy')

/-- A tree with a directory in another one. -/
def refsFiles : FileTree where
  entries := [(["a"], .directory), (["a", "refs"], .directory)]

/-- Blanks, slashes side by side and a point are lost when an argument is split, but two inputs go to
the directory that is there. -/
theorem parse_splits_dottedArgument :
    ∃ request request' target target',
      parse {} " a//./refs " = .ok request ∧ request = ⟨some ⟨"a"⟩, some "refs"⟩ ∧
      parse refsFiles " a//./refs " = .ok request' ∧ request' = ofDirectory ⟨"a//./refs"⟩ ∧
      resolve {} ⟨"Lib.dll"⟩ (Batch.sharedRequest [⟨"Lib.dll"⟩, ⟨"Other.dll"⟩] (some request)) =
        .ok target ∧
      resolve {} ⟨"Lib.dll"⟩ (Batch.sharedRequest [⟨"Lib.dll"⟩, ⟨"Other.dll"⟩] (some request')) =
        .ok target' ∧
      target.directory.sameAs target'.directory = true := by
  have hsplit : parse {} " a//./refs " = .ok ⟨some ⟨"a"⟩, some "refs"⟩ := by decide +kernel
  have hthere : parse refsFiles " a//./refs " = .ok (ofDirectory ⟨"a//./refs"⟩) := by
    decide +kernel
  have hends : ¬ EndsInSeparator (Text.trim " a//./refs ") := by
    rw [← endsWithSeparator_iff]
    decide +kernel
  obtain ⟨-, -, hshared⟩ := parse_splits " a//./refs "
  obtain ⟨target, target', htarget, htarget', hsame, -⟩ := hshared _ _ _ _ hsplit hthere hends {}
    [⟨"Lib.dll"⟩, ⟨"Other.dll"⟩] ⟨"Lib.dll"⟩ "Lib.dll" (by decide) (by decide)
  exact ⟨_, _, target, target', hsplit, rfl, hthere, rfl, htarget, htarget', hsame⟩

end OutputRequest

end PublicAssembly
