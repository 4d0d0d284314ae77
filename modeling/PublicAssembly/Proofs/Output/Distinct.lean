import PublicAssembly.Proofs.Batch.Isolation
import PublicAssembly.Proofs.Output.Containment

/-!
# Copies of different names are different

A suffix is put in front of the last point of a name, and it may hold points itself. Still no two
names become one: what stands behind the last point holds no point, and a name without such an end
has a point at its front at most, where the suffix cannot come. So two copies of a batch, which
share their directory, meet exactly if their inputs have the same file name.

## Main statements

* `Path.splitExtension_append_cons`: where a name is cut;
* `OutputTarget.suffixedName_injective`: a suffix keeps names different;
* `OutputTarget.distinct_copies`: so do the names and the paths of copies.
-/

namespace PublicAssembly

namespace Path

variable {name stem extension : List Char}

/-- A name is cut at a point if none stands behind it and something stands in front of it. -/
theorem splitExtension_append_cons (hstem : stem ≠ []) (hextension : '.' ∉ extension) :
    splitExtension (stem ++ '.' :: extension) = (stem, some extension) := by
  have hplain : ∀ c ∈ extension.reverse, (c != '.') = true := by
    intro c hc
    rw [bne_iff_ne]
    rintro rfl
    exact hextension (List.mem_reverse.1 hc)
  have hreverse : (stem ++ '.' :: extension).reverse = extension.reverse ++ '.' :: stem.reverse := by
    simp
  -- from behind, the cut is at the first point, which is the one before the extension
  have hdrop : (stem ++ '.' :: extension).reverse.dropWhile (· != '.') = '.' :: stem.reverse := by
    rw [hreverse, List.dropWhile_append_of_pos hplain, List.dropWhile_cons_of_neg (by simp)]
  have htake : (stem ++ '.' :: extension).reverse.takeWhile (· != '.') = extension.reverse := by
    rw [hreverse, List.takeWhile_append_of_pos hplain, List.takeWhile_cons_of_neg (by simp),
      List.append_nil]
  obtain ⟨c, before, hbefore⟩ := List.exists_cons_of_ne_nil (List.reverse_ne_nil_iff.2 hstem)
  rw [splitExtension, hdrop, htake, hbefore]
  simp only [← hbefore, List.reverse_reverse]

/-- No point stands behind the last one. -/
theorem not_mem_extension (h : (splitExtension name).2 = some extension) : '.' ∉ extension := by
  unfold splitExtension at h
  split at h
  · rw [Option.some.injEq] at h
    rw [← h, List.mem_reverse]
    intro hmem
    simpa using List.mem_takeWhile_imp hmem
  · cases h

/-- A name that is not cut has a point at its front at most. -/
theorem not_mem_tail (h : (splitExtension name).2 = none) : '.' ∉ name.tail := by
  have hwhole := List.takeWhile_append_dropWhile (p := (· != '.')) (l := name.reverse)
  have hplain : '.' ∉ name.reverse.takeWhile (· != '.') := by
    intro hmem
    simpa using List.mem_takeWhile_imp hmem
  unfold splitExtension at h
  split at h
  · cases h
  · next hshort =>
    rcases hdrop : name.reverse.dropWhile (· != '.') with _ | ⟨c, _ | ⟨d, before⟩⟩
    · -- the name holds no point
      rw [hdrop, List.append_nil] at hwhole
      rw [hwhole, List.mem_reverse] at hplain
      exact fun hmem => hplain (List.mem_of_mem_tail hmem)
    · -- all but the first character were looked at
      rw [hdrop, ← List.reverse_inj, List.reverse_reverse, List.reverse_append] at hwhole
      rw [← hwhole, List.reverse_singleton, List.singleton_append, List.tail_cons,
        List.mem_reverse]
      exact hplain
    · exact absurd hdrop (hshort c d before)

/-- The stem of a name that is not cut is the name. -/
theorem stem_eq_self (h : (splitExtension name).2 = none) : (splitExtension name).1 = name := by
  have hwhole := splitExtension_append name
  rwa [h, Option.map_none, Option.getD_none, List.append_nil] at hwhole

/-- A name that is cut is its parts with a point between them. -/
theorem eq_append_cons (h : (splitExtension name).2 = some extension) :
    name = (splitExtension name).1 ++ '.' :: extension := by
  have hwhole := splitExtension_append name
  rw [h, Option.map_some, Option.getD_some] at hwhole
  exact hwhole.symm

/-- Something stands in front of the point at which a name is cut. -/
theorem stem_ne_nil (h : (splitExtension name).2 = some extension) :
    (splitExtension name).1 ≠ [] := by
  refine splitExtension_ne_nil ?_
  rintro rfl
  cases h

end Path

namespace OutputTarget

open PublicAssembly.Path (splitExtension)

variable {a b suffix : List Char}

/-- A suffix stands behind the whole of a name that is not cut. -/
theorem suffixedName_of_not_cut (h : (splitExtension a).2 = none) :
    suffixedName a suffix = a ++ suffix := by
  rw [suffixedName]
  dsimp only
  rw [h, Path.stem_eq_self h, Option.map_none, Option.getD_none, List.append_nil]

/-- A suffix stands in front of the point at which a name is cut. -/
theorem suffixedName_of_cut {extension : List Char} (h : (splitExtension a).2 = some extension) :
    suffixedName a suffix = (splitExtension a).1 ++ suffix ++ '.' :: extension := by
  rw [suffixedName]
  dsimp only
  rw [h, Option.map_some, Option.getD_some]

/-- The extension is kept, and the suffix stands behind the stem. -/
theorem splitExtension_suffixedName {extension : List Char}
    (h : (splitExtension a).2 = some extension) :
    splitExtension (suffixedName a suffix) = ((splitExtension a).1 ++ suffix, some extension) := by
  rw [suffixedName_of_cut h]
  refine Path.splitExtension_append_cons ?_ (Path.not_mem_extension h)
  exact List.append_ne_nil_of_left_ne_nil (Path.stem_ne_nil h) suffix

/-- A name that is not cut and one that is do not become one. -/
theorem suffixedName_ne (ha : (splitExtension a).2 = none) {extension : List Char}
    (hb : (splitExtension b).2 = some extension) (suffix : List Char) :
    suffixedName a suffix ≠ suffixedName b suffix := by
  intro heq
  rw [suffixedName_of_not_cut ha, suffixedName_of_cut hb] at heq
  -- the suffix adds the same points to both, so the first name has one more than the stem
  have hcount := congrArg (List.count '.') heq
  have hpoints : (splitExtension b).1.count '.' + 1 ≤ a.count '.' := by
    simp only [List.count_append, List.count_cons_self] at hcount
    omega
  obtain ⟨c, stem, hstem⟩ := List.exists_cons_of_ne_nil (Path.stem_ne_nil hb)
  rw [hstem] at heq hpoints
  cases a with
  | nil => simp at hpoints
  | cons d rest =>
    -- that one stands at its front, where the stem has the same character
    have htail : rest.count '.' = 0 := List.count_eq_zero.2 (Path.not_mem_tail ha)
    simp only [List.cons_append, List.cons.injEq] at heq
    rw [List.count_cons, List.count_cons, heq.1, htail] at hpoints
    omega

/-- A suffix keeps names different. -/
theorem suffixedName_injective (suffix : List Char) :
    Function.Injective fun name => suffixedName name suffix := by
  intro a b heq
  dsimp only at heq
  cases ha : (splitExtension a).2 with
  | none =>
    cases hb : (splitExtension b).2 with
    | none =>
      rw [suffixedName_of_not_cut ha, suffixedName_of_not_cut hb] at heq
      exact List.append_cancel_right heq
    | some extension => exact absurd heq (suffixedName_ne ha hb suffix)
  | some extension =>
    cases hb : (splitExtension b).2 with
    | none => exact absurd heq.symm (suffixedName_ne hb ha suffix)
    | some other =>
      -- both names are cut where they were put together
      have hsplit := congrArg splitExtension heq
      rw [splitExtension_suffixedName ha, splitExtension_suffixedName hb, Prod.mk.injEq,
        Option.some.injEq] at hsplit
      rw [Path.eq_append_cons ha, Path.eq_append_cons hb, List.append_cancel_right hsplit.1,
        hsplit.2]

variable {settings : OutputSettings} {input other : Path} {own name : String}

/-- The name of the copy of an input with a file name. -/
theorem defaultName_eq (settings : OutputSettings) (h : input.fileName? = some own) :
    defaultName settings input =
      .ok (String.ofList (suffixedName own.toList settings.suffix.toList)) := by
  rw [defaultName, h]

/-- Only inputs with a file name have a name for their copy. -/
theorem exists_fileName_of_defaultName {copy : String}
    (h : defaultName settings input = .ok copy) : ∃ own, input.fileName? = some own := by
  rw [defaultName] at h
  cases hown : input.fileName? with
  | none =>
    rw [hown] at h
    cases h
  | some own => exact ⟨own, rfl⟩

/-- The copies of two inputs have the same name exactly if the inputs have. -/
theorem ofList_suffixedName_eq_iff (suffix : List Char) :
    String.ofList (suffixedName own.toList suffix) =
      String.ofList (suffixedName name.toList suffix) ↔ own = name := by
  constructor
  · intro heq
    exact String.toList_inj.1 (suffixedName_injective suffix (String.ofList_injective heq))
  · rintro rfl
    rfl

/-- Two names in one directory lead to the same path exactly if they are the same. -/
theorem sameAs_join_iff (directory : Path) (hown : Path.PlainName own)
    (hname : Path.PlainName name) :
    (directory.join ⟨own⟩).sameAs (directory.join ⟨name⟩) = true ↔ own = name := by
  rw [Path.sameAs, beq_iff_eq, Path.components_join hown, Path.components_join hname]
  simp

/-- The copies of two inputs that have file names get the same name exactly if the file names are
the same, whatever the suffix; without a suffix these are the names of the copies. With a suffix
that separates no names, all copies of several inputs go to one directory, and two of them to the
same path exactly if their inputs have the same file name. -/
theorem distinct_copies (settings : OutputSettings) :
    (∀ input other own name, input.fileName? = some own → other.fileName? = some name →
      ∃ copy copy', defaultName settings input = .ok copy ∧
        defaultName settings other = .ok copy' ∧ (copy = copy' ↔ own = name) ∧
        (settings.suffix = "" → copy = own)) ∧
    ('/' ∉ settings.suffix.toList → ∀ inputs request, 1 < inputs.length →
      ∀ input other target target',
        resolve settings input (Batch.sharedRequest inputs request) = .ok target →
        resolve settings other (Batch.sharedRequest inputs request) = .ok target' →
          target.directory = target'.directory ∧
            (target.path.sameAs target'.path = true ↔ input.fileName? = other.fileName?)) := by
  refine ⟨fun input other own name hown hname => ?_, fun hsuffix inputs request hseveral input other
    target target' htarget htarget' => ?_⟩
  · refine ⟨_, _, defaultName_eq settings hown, defaultName_eq settings hname,
      ofList_suffixedName_eq_iff _, fun hblank => ?_⟩
    rw [hblank]
    exact (congrArg String.ofList (suffixedName_nil own.toList)).trans String.ofList_toList
  · -- the request names no file, so both names are made with the suffix
    have hnone := Batch.requestedName?_sharedRequest hseveral request
    obtain ⟨hdirectory, hcopy⟩ := (resolve_eq_ok_iff hnone).1 htarget
    obtain ⟨hdirectory', hcopy'⟩ := (resolve_eq_ok_iff hnone).1 htarget'
    obtain ⟨own, hown⟩ := exists_fileName_of_defaultName hcopy
    obtain ⟨name, hname⟩ := exists_fileName_of_defaultName hcopy'
    refine ⟨hdirectory.trans hdirectory'.symm, ?_⟩
    rw [path, path, hdirectory, hdirectory', sameAs_join_iff _ (plainName_defaultName hsuffix hcopy)
      (plainName_defaultName hsuffix hcopy'), hown, hname, Option.some.injEq]
    rw [defaultName_eq settings hown, Except.ok.injEq] at hcopy
    rw [defaultName_eq settings hname, Except.ok.injEq] at hcopy'
    rw [← hcopy, ← hcopy', ofList_suffixedName_eq_iff]

/-- A suffix that looks like an extension makes the name of one input out of that of the other, but
gives the other one another name. -/
theorem distinct_copies_dottedSuffix :
    ∃ copy copy' target target',
      defaultName { suffix := ".dll" } ⟨"a/Lib"⟩ = .ok copy ∧ copy = "Lib.dll" ∧
      defaultName { suffix := ".dll" } ⟨"b/Lib.dll"⟩ = .ok copy' ∧ copy ≠ copy' ∧
      resolve { suffix := ".dll" } ⟨"a/Lib"⟩
        (Batch.sharedRequest [⟨"a/Lib"⟩, ⟨"b/Lib.dll"⟩] none) = .ok target ∧
      resolve { suffix := ".dll" } ⟨"b/Lib.dll"⟩
        (Batch.sharedRequest [⟨"a/Lib"⟩, ⟨"b/Lib.dll"⟩] none) = .ok target' ∧
      target.path.sameAs target'.path = false := by
  obtain ⟨hnames, hpaths⟩ := distinct_copies { suffix := ".dll" }
  obtain ⟨copy, copy', hcopy, hcopy', hiff, -⟩ :=
    hnames ⟨"a/Lib"⟩ ⟨"b/Lib.dll"⟩ "Lib" "Lib.dll" (by decide) (by decide)
  have hlib : defaultName { suffix := ".dll" } ⟨"a/Lib"⟩ = .ok "Lib.dll" := by decide
  have htarget : resolve { suffix := ".dll" } ⟨"a/Lib"⟩
      (Batch.sharedRequest [⟨"a/Lib"⟩, ⟨"b/Lib.dll"⟩] none) =
        .ok ⟨⟨"publicized_assemblies"⟩, "Lib.dll"⟩ := by
    decide
  have htarget' : resolve { suffix := ".dll" } ⟨"b/Lib.dll"⟩
      (Batch.sharedRequest [⟨"a/Lib"⟩, ⟨"b/Lib.dll"⟩] none) =
        .ok ⟨⟨"publicized_assemblies"⟩, "Lib.dll.dll"⟩ := by
    decide
  obtain ⟨-, hsame⟩ := hpaths (by decide) _ none (by decide) _ _ _ _ htarget htarget'
  refine ⟨copy, copy', _, _, hcopy, ?_, hcopy', ?_, htarget, htarget', ?_⟩
  · cases hcopy.symm.trans hlib
    rfl
  · rw [ne_eq, hiff]
    decide
  · rw [← Bool.not_eq_true, hsame]
    decide

end OutputTarget

end PublicAssembly
