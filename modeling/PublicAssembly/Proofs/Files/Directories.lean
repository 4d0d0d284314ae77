import PublicAssembly.Proofs.Files.Following

/-!
# Making directories

A directory that was made is there (`hasDirectory_of_makeDirectoryPath`). Making one that is there
changes nothing, and so does making one again that could not be made: whatever stood in the way still
does (`makeDirectoryPath_of_error`).

## Main definitions

* `FileTree.Extends`: a tree with some more files and directories;
* `FileTree.AddsDirectories`: a tree with some more directories, and with the same files.

## Main statements

* `hasDirectory_of_makeDirectoryPath`: what was made is there;
* `makeDirectoryPath_of_hasDirectory`: what is there need not be made;
* `makeDirectoryPath_of_error`: what could not be made cannot be made again;
* `addsDirectories_makeDirectoryPath`: making directories leaves the rest as it is.
-/

namespace PublicAssembly

open Files (Fault)
open Reading
open Text (segments)

namespace FileTree

variable {tree made left : FileTree} {path above : Path} {place : Location}

/-! ### More files and directories -/

/-- All files and directories are still there, and perhaps some more. -/
structure Extends (tree more : FileTree) : Prop where
  /-- Relative paths start from the same place. -/
  workingDirectory_eq : more.workingDirectory = tree.workingDirectory
  /-- What was there is there. -/
  get?_eq : ∀ place entry, tree.get? place = some entry → more.get? place = some entry

theorem Extends.refl (tree : FileTree) : tree.Extends tree :=
  ⟨rfl, fun _ _ h => h⟩

theorem Extends.trans {more : FileTree} (h : tree.Extends made) (hmore : made.Extends more) :
    tree.Extends more :=
  ⟨hmore.workingDirectory_eq.trans h.workingDirectory_eq,
    fun place entry hentry => hmore.get?_eq place entry (h.get?_eq place entry hentry)⟩

/-- What is put at an empty place leaves the rest as it is. -/
theorem extends_set (hplace : tree.get? place = none) (entry : FileEntry) :
    tree.Extends (tree.set place entry) := by
  refine ⟨rfl, fun other found hfound => ?_⟩
  have hne : other ≠ place := by
    rintro rfl
    rw [hplace] at hfound
    cases hfound
  rw [get?_set_of_ne hne, hfound]

/-- All files are as they were, and all directories are still there, and perhaps some more. -/
structure AddsDirectories (tree more : FileTree) : Prop extends Extends tree more where
  /-- No file was not there before. -/
  get?_of_file : ∀ place content, more.get? place = some (.file content) →
    tree.get? place = some (.file content)

theorem AddsDirectories.refl (tree : FileTree) : tree.AddsDirectories tree :=
  ⟨.refl tree, fun _ _ h => h⟩

theorem AddsDirectories.trans {more : FileTree} (h : tree.AddsDirectories made)
    (hmore : made.AddsDirectories more) : tree.AddsDirectories more :=
  ⟨h.toExtends.trans hmore.toExtends,
    fun place content hfile => h.get?_of_file place content (hmore.get?_of_file place content hfile)⟩

/-- A directory that is put at an empty place leaves the rest as it is. -/
theorem addsDirectories_set (hplace : tree.get? place = none) :
    tree.AddsDirectories (tree.set place .directory) := by
  have hroot : place ≠ [] := by
    rintro rfl
    simp [get?] at hplace
  refine ⟨extends_set hplace .directory, fun other content hfile => ?_⟩
  by_cases heq : other = place
  · rw [heq, get?_set_self hroot] at hfile
    cases hfile
  · rwa [get?_set_of_ne heq] at hfile

/-- What it takes to find the place that a path leads to. -/
theorem locate_eq_ok_iff :
    tree.locate path = .ok place ↔
      path.Usable ∧ tree.follow (tree.startOf path) (segments '/' path.chars) = .ok place :=
  locatePieces_eq_ok_iff

/-- A path leads to the same place in a tree with more directories. -/
theorem locate_mono {other : FileTree} (hworking : other.workingDirectory = tree.workingDirectory)
    (hdirectories : ∀ place, tree.get? place = some .directory →
      other.get? place = some .directory)
    (h : tree.locate path = .ok place) : other.locate path = .ok place := by
  obtain ⟨husable, hfollow⟩ := locate_eq_ok_iff.1 h
  have hstart : other.startOf path = tree.startOf path := by rw [startOf, startOf, hworking]
  refine locate_eq_ok_iff.2 ⟨husable, ?_⟩
  rw [hstart]
  exact follow_mono hdirectories hfollow

/-- What it takes to find something: a place, and that it is there. -/
theorem find_eq_ok_iff {entry : FileEntry} :
    tree.find path = .ok entry ↔ ∃ place, tree.locate path = .ok place ∧ tree.get? place = some entry := by
  rw [find, bind_eq_ok_iff]
  refine exists_congr fun place => and_congr_right fun _ => ?_
  cases tree.get? place <;> simp

/-- Paths lead to the same places in a tree with more files and directories. -/
theorem Extends.locate_eq (h : tree.Extends made) (hlocate : tree.locate path = .ok place) :
    made.locate path = .ok place :=
  locate_mono h.workingDirectory_eq (fun other => h.get?_eq other .directory) hlocate

/-- What is found is found in a tree with more files and directories. -/
theorem Extends.find_eq (h : tree.Extends made) {entry : FileEntry}
    (hfind : tree.find path = .ok entry) : made.find path = .ok entry := by
  obtain ⟨place, hlocate, hentry⟩ := find_eq_ok_iff.1 hfind
  exact find_eq_ok_iff.2 ⟨place, h.locate_eq hlocate, h.get?_eq place entry hentry⟩

/-- What can be read is read the same in a tree with more files and directories. -/
theorem Extends.read_eq (h : tree.Extends made) {content : Bytes}
    (hread : tree.read path = .ok content) : made.read path = .ok content := by
  rw [read, bind_eq_ok_iff] at hread ⊢
  obtain ⟨entry, hfind, hcontent⟩ := hread
  exact ⟨entry, h.find_eq hfind, hcontent⟩

/-- What it takes to make a directory: its place is found, and nothing is there. -/
theorem makeDirectory_eq_ok_iff :
    tree.makeDirectory path = .ok made ↔
      ∃ place, tree.locatePieces path ((segments '/' path.chars).rdropWhile List.isEmpty) =
          .ok place ∧
        tree.get? place = none ∧ tree.set place .directory = made := by
  rw [makeDirectory, bind_eq_ok_iff]
  refine exists_congr fun place => and_congr_right fun _ => ?_
  cases tree.get? place <;> simp

/-- A directory that was made is there. -/
theorem hasDirectory_of_makeDirectory (h : tree.makeDirectory path = .ok made) :
    made.hasDirectory path = true := by
  obtain ⟨place, hlocate, hplace, rfl⟩ := makeDirectory_eq_ok_iff.1 h
  obtain ⟨husable, hfollow⟩ := locatePieces_eq_ok_iff.1 hlocate
  obtain ⟨blank, hpieces, hblank⟩ := Text.exists_blank (segments '/' path.chars)
  have hroot : place ≠ [] := by
    rintro rfl
    simp [get?] at hplace
  have hthere := get?_set_self hroot tree .directory
  refine hasDirectory_iff.2 ⟨place, locate_eq_ok_iff.2 ⟨husable, ?_⟩, hthere⟩
  rw [hpieces]
  -- the way to the new directory is in the tree still, and separators behind it change nothing
  have hextends := extends_set hplace .directory
  exact (follow_append_eq_ok_iff _ _).2 ⟨place,
    follow_mono (fun other => hextends.get?_eq other .directory) hfollow,
    follow_blank hblank hthere⟩

/-- A directory that is there cannot be made. -/
theorem makeDirectory_of_hasDirectory (h : tree.hasDirectory path = true) :
    tree.makeDirectory path = .error .alreadyExists := by
  obtain ⟨place, hlocate, hplace⟩ := hasDirectory_iff.1 h
  obtain ⟨husable, hfollow⟩ := locate_eq_ok_iff.1 hlocate
  obtain ⟨blank, hpieces, hblank⟩ := Text.exists_blank (segments '/' path.chars)
  rw [hpieces] at hfollow
  obtain ⟨between, hfront, hbehind⟩ := (follow_append_eq_ok_iff _ _).1 hfollow
  obtain rfl := eq_of_follow_blank hblank hbehind
  have hfound := locatePieces_eq_ok_iff.2 ⟨husable, hfront⟩
  rw [List.rdropWhile] at hfound
  simp only [makeDirectory, hfound, ok_bind, hplace, throw_eq]

/-- The root is there, also when nothing else is. -/
theorem hasDirectory_root (h : path.chars = ['/']) : tree.hasDirectory path = true := by
  have habsolute : path.isAbsolute = true := by rw [Path.isAbsolute, h]; rfl
  have hroot : tree.get? [] = some .directory := by rw [get?, if_pos rfl]
  have htext : path.text = "/" := by
    rw [← String.ofList_toList (s := path.text)]
    exact congrArg String.ofList h
  refine hasDirectory_iff.2 ⟨[], locate_eq_ok_iff.2 ⟨⟨by simp [h], by simp [Path.isEmpty, h], ?_⟩,
    ?_⟩, hroot⟩
  · rw [htext]
    decide
  · rw [startOf, if_pos habsolute, h]
    exact follow_blank (by simp [segments]) hroot

/-! ### The directory above -/

/-- A path that may be followed still may without the end of its text, if text is left. -/
theorem usable_of_chars_eq {more : List Char} (hchars : path.chars = above.chars ++ more)
    (hne : above.isEmpty = false) (h : path.Usable) : above.Usable := by
  refine ⟨fun hnul => h.no_nul ?_, hne, Nat.lt_of_le_of_lt ?_ h.short⟩
  · rw [hchars]
    exact List.mem_append_left _ hnul
  · have htext : path.text = above.text ++ String.ofList more := by
      rw [← String.toList_inj, String.toList_append, String.toList_ofList]
      exact hchars
    rw [htext, String.utf8ByteSize_append]
    exact Nat.le_add_right _ _

/-- Paths with the same front are followed from the same place. -/
theorem startOf_eq_of_chars_eq {more : List Char} (hchars : path.chars = above.chars ++ more)
    (hne : above.isEmpty = false) : tree.startOf path = tree.startOf above := by
  have hfront : above.chars ≠ [] := by
    rw [Path.isEmpty, List.isEmpty_eq_false_iff] at hne
    exact hne
  rw [startOf, startOf, Path.isAbsolute, Path.isAbsolute, hchars, List.head?_append_of_ne_nil _ hfront]

/-- Whoever can follow a path beyond another one has been in a directory there. -/
theorem hasDirectory_of_follow {more : List Char} (hchars : path.chars = above.chars ++ '/' :: more)
    (hne : above.isEmpty = false) (husable : path.Usable) {pieces : List (List Char)}
    (hpieces : pieces ≠ [])
    (h : tree.follow (tree.startOf path) (segments '/' above.chars ++ pieces) = .ok place) :
    tree.hasDirectory above = true := by
  obtain ⟨between, hfront, hbehind⟩ := (follow_append_eq_ok_iff _ _).1 h
  rw [startOf_eq_of_chars_eq hchars hne] at hfront
  exact hasDirectory_iff.2 ⟨between, locate_eq_ok_iff.2
    ⟨usable_of_chars_eq hchars hne husable, hfront⟩, directory_of_follow hpieces hbehind⟩

/-- Above a directory that is there, and above one that can be made, there is a directory. -/
theorem hasDirectory_parent (hparent : path.parent? = some above) (hne : above.isEmpty = false)
    (h : tree.hasDirectory path = true ∨ ∃ made, tree.makeDirectory path = .ok made) :
    tree.hasDirectory above = true := by
  rcases Path.chars_of_parent? hparent with hempty | hroot | ⟨more, hchars, c, hc, hname⟩
  · rw [hempty] at hne
    cases hne
  · exact hasDirectory_root hroot
  · -- the way to the path goes through its parent, since its pieces come first
    have hpieces : segments '/' path.chars = segments '/' above.chars ++ segments '/' more := by
      rw [hchars, Text.segments_append_cons]
    rcases h with hdirectory | ⟨made, hmade⟩
    · obtain ⟨place, hlocate, -⟩ := hasDirectory_iff.1 hdirectory
      obtain ⟨husable, hfollow⟩ := locate_eq_ok_iff.1 hlocate
      rw [hpieces] at hfollow
      exact hasDirectory_of_follow hchars hne husable (Text.segments_ne_nil '/' more) hfollow
    · obtain ⟨place, hlocate, -, -⟩ := makeDirectory_eq_ok_iff.1 hmade
      obtain ⟨husable, hfollow⟩ := locatePieces_eq_ok_iff.1 hlocate
      -- the trailing pieces are cut off before a directory is made, but not those of the parent
      have hpiece : ∃ piece ∈ segments '/' more, piece ≠ [] := by
        rw [← Text.joinWith_segments '/' more] at hc
        obtain ⟨piece, hpiece, hin⟩ := (Text.mem_joinWith hc).resolve_left hname
        exact ⟨piece, hpiece, List.ne_nil_of_mem hin⟩
      obtain ⟨htrimmed, hrest⟩ := Text.rdropWhile_append (segments '/' above.chars) hpiece
      rw [hpieces, htrimmed] at hfollow
      exact hasDirectory_of_follow hchars hne husable hrest hfollow

/-! ### Making directories -/

/-- A directory that is there need not be made. -/
theorem makeDirectoryPath_of_hasDirectory (h : path.isEmpty = true ∨ tree.hasDirectory path = true) :
    tree.makeDirectoryPath path = (tree, .ok ()) := by
  obtain ⟨rest, hancestors⟩ : ∃ rest, path.ancestors = path :: rest := by
    rw [Path.ancestors]
    split
    · exact ⟨_, rfl⟩
    · exact ⟨_, rfl⟩
  rw [makeDirectoryPath, hancestors, makeDirectories]
  by_cases hempty : path.isEmpty = true
  · rw [if_pos hempty]
  · have hdirectory := h.resolve_left hempty
    rw [if_neg hempty, makeDirectory_of_hasDirectory hdirectory, hdirectory]
    rfl

/-- After directories were made, the first of them is there. -/
theorem hasDirectory_of_makeDirectories {paths : List Path} (hne : path.isEmpty = false)
    (h : tree.makeDirectories (path :: paths) = (made, .ok ())) : made.hasDirectory path = true := by
  -- a refusal counts as success only where the directory is there already
  have hrefused {tree : FileTree} {fault : Fault}
      (hcase : (tree, if tree.hasDirectory path = true then Except.ok () else .error fault) =
        (made, .ok ())) : made.hasDirectory path = true := by
    rw [Prod.mk.injEq, ite_ok_error_eq_ok_iff] at hcase
    obtain ⟨rfl, hdirectory, -⟩ := hcase
    exact hdirectory
  rw [makeDirectories, if_neg (by simp [hne])] at h
  split at h
  · next hmade =>
    cases h
    exact hasDirectory_of_makeDirectory hmade
  · split at h
    · cases h
    · split at h
      · next hmade =>
        cases h
        exact hasDirectory_of_makeDirectory hmade
      · exact hrefused h
  · exact hrefused h

/-- A directory that was made with those above it is there. -/
theorem hasDirectory_of_makeDirectoryPath (hne : path.isEmpty = false)
    (h : tree.makeDirectoryPath path = (made, .ok ())) : made.hasDirectory path = true := by
  rw [makeDirectoryPath, Path.ancestors] at h
  split at h
  · exact hasDirectory_of_makeDirectories hne h
  · exact hasDirectory_of_makeDirectories hne h

/-- A directory that is made leaves the rest as it is. -/
theorem addsDirectories_makeDirectory (h : tree.makeDirectory path = .ok made) :
    tree.AddsDirectories made := by
  obtain ⟨place, -, hplace, rfl⟩ := makeDirectory_eq_ok_iff.1 h
  exact addsDirectories_set hplace

/-- Making directories leaves the rest as it is, also where it fails. -/
theorem addsDirectories_makeDirectories (paths : List Path) :
    tree.AddsDirectories (tree.makeDirectories paths).1 := by
  -- along the ancestors, each of which is made only if the one below it could not be
  induction paths generalizing tree with
  | nil => exact .refl tree
  | cons path paths ih =>
    rw [makeDirectories]
    split
    · exact .refl tree
    · split
      · next made hmade => exact addsDirectories_makeDirectory hmade
      · have habove := @ih tree
        split
        · next left fault hleft =>
          rw [hleft] at habove
          exact habove
        · next between hbetween =>
          rw [hbetween] at habove
          split
          · next made hmade => exact habove.trans (addsDirectories_makeDirectory hmade)
          · exact habove
      · exact .refl tree

/-- Making a directory with those above it leaves the rest as it is, also where it fails. -/
theorem addsDirectories_makeDirectoryPath {result : Except Fault Unit}
    (h : tree.makeDirectoryPath path = (left, result)) : tree.AddsDirectories left := by
  have hadds : tree.AddsDirectories (tree.makeDirectoryPath path).1 :=
    addsDirectories_makeDirectories _
  rwa [h] at hadds

theorem ancestors_of_parent (hparent : path.parent? = some above) :
    path.ancestors = path :: above.ancestors := by
  rw [Path.ancestors]
  split
  · next other hother =>
    rw [hparent] at hother
    cases hother
    rfl
  · next hnone =>
    rw [hparent] at hnone
    cases hnone

theorem ancestors_of_parent_none (hparent : path.parent? = none) : path.ancestors = [path] := by
  rw [Path.ancestors]
  split
  · next other hother =>
    rw [hparent] at hother
    cases hother
  · rfl

/-- Making a directory with those above it, step by step. -/
theorem makeDirectoryPath_of_parent (hparent : path.parent? = some above)
    (hne : path.isEmpty = false) (tree : FileTree) :
    tree.makeDirectoryPath path =
      match tree.makeDirectory path with
      | .ok made => (made, .ok ())
      | .error .notFound =>
        match tree.makeDirectoryPath above with
        | (tree, .error fault) => (tree, .error fault)
        | (tree, .ok ()) =>
          match tree.makeDirectory path with
          | .ok made => (made, .ok ())
          | .error fault => (tree, if tree.hasDirectory path then .ok () else .error fault)
      | .error fault => (tree, if tree.hasDirectory path then .ok () else .error fault) := by
  rw [makeDirectoryPath, ancestors_of_parent hparent, makeDirectories, if_neg (by simp [hne])]
  rfl

/-- A directory that is neither there nor can be made, because one above it cannot be made. -/
theorem refused_of_parent (hparent : path.parent? = some above) {fault : Fault}
    (h : tree.makeDirectoryPath above = (left, .error fault)) :
    tree.hasDirectory path = false ∧ ∀ made, tree.makeDirectory path ≠ .ok made := by
  -- if the directory above were there, it would not have been refused
  have habove : ¬ (above.isEmpty = true ∨ tree.hasDirectory above = true) := by
    intro hthere
    rw [makeDirectoryPath_of_hasDirectory hthere] at h
    cases h
  rw [not_or, Bool.not_eq_true, Bool.not_eq_true] at habove
  refine ⟨?_, fun made hmade => ?_⟩
  · rw [Bool.eq_false_iff]
    intro hdirectory
    have hthere := hasDirectory_parent hparent habove.1 (.inl hdirectory)
    rw [habove.2] at hthere
    cases hthere
  · have hthere := hasDirectory_parent hparent habove.1 (.inr ⟨made, hmade⟩)
    rw [habove.2] at hthere
    cases hthere

/-- A refusal is one where the directory is not there. -/
theorem refusal_eq_error_iff {fault refused : Fault} :
    (tree, if tree.hasDirectory path = true then Except.ok () else .error refused) =
      (left, (.error fault : Except Fault Unit)) ↔
        tree = left ∧ left.hasDirectory path = false ∧ refused = fault := by
  rw [Prod.mk.injEq]
  refine and_congr_right ?_
  rintro rfl
  by_cases hdirectory : tree.hasDirectory path = true
  · simp [hdirectory]
  · simp [hdirectory]

/-- A directory is refused, and nothing is made, where it cannot be made and the reason is not that
something is missing, or the directory above it is there. -/
theorem makeDirectoryPath_of_refused (hparent : path.parent? = some above)
    (hne : path.isEmpty = false) {refused : Fault}
    (hrefused : tree.makeDirectory path = .error refused)
    (hdirectory : tree.hasDirectory path = false)
    (hreason : refused ≠ .notFound ∨ above.isEmpty = true ∨ tree.hasDirectory above = true) :
    tree.makeDirectoryPath path = (tree, .error refused) := by
  rw [makeDirectoryPath_of_parent hparent hne, hrefused]
  split
  · next hcase => cases hcase
  · next hcase =>
    -- the one above it is there, so that making it changes nothing
    cases hcase
    have hthere := hreason.resolve_left (fun h => h rfl)
    rw [makeDirectoryPath_of_hasDirectory hthere]
    dsimp only
    rw [hrefused]
    exact refusal_eq_error_iff.2 ⟨rfl, hdirectory, rfl⟩
  · next hcase =>
    cases hcase
    exact refusal_eq_error_iff.2 ⟨rfl, hdirectory, rfl⟩

/-- A directory is refused, and nothing is made, where nothing is made of the one above it. -/
theorem makeDirectoryPath_of_above (hparent : path.parent? = some above)
    (hne : path.isEmpty = false) {fault : Fault}
    (habove : tree.makeDirectoryPath above = (tree, .error fault)) :
    ∃ refused, tree.makeDirectoryPath path = (tree, .error refused) := by
  obtain ⟨hdirectory, hmade⟩ := refused_of_parent hparent habove
  rw [makeDirectoryPath_of_parent hparent hne]
  split
  · next made hmake => exact absurd hmake (hmade made)
  · rw [habove]
    exact ⟨fault, rfl⟩
  · next refused _ _ => exact ⟨refused, refusal_eq_error_iff.2 ⟨rfl, hdirectory, rfl⟩⟩

/-- With nothing above, a failure leaves the tree as it was. -/
theorem eq_of_makeDirectoryPath_error (hparent : path.parent? = none) {fault : Fault}
    (h : tree.makeDirectoryPath path = (left, .error fault)) : left = tree := by
  rw [makeDirectoryPath, ancestors_of_parent_none hparent, makeDirectories] at h
  split at h
  · cases h
  · split at h
    · cases h
    · simp only [makeDirectories, Prod.mk.injEq] at h
      exact h.1.symm
    · exact (refusal_eq_error_iff.1 h).1.symm

/-- A directory that could not be made cannot be made again, and trying leaves the tree as the first
attempt left it. -/
theorem makeDirectoryPath_of_error {fault : Fault}
    (h : tree.makeDirectoryPath path = (left, .error fault)) :
    ∃ again, left.makeDirectoryPath path = (left, .error again) := by
  -- upwards from the directory: the first attempt failed here, or at one above, which fails again
  induction path using Path.ancestors.induct generalizing tree fault with
  | case1 path above hparent ih =>
    have hne : path.isEmpty = false := by
      rw [Bool.eq_false_iff]
      intro hempty
      rw [makeDirectoryPath_of_hasDirectory (.inl hempty)] at h
      cases h
    rw [makeDirectoryPath_of_parent hparent hne] at h
    split at h
    · cases h
    · split at h
      · next habove =>
        cases h
        obtain ⟨again, hagain⟩ := ih habove
        exact makeDirectoryPath_of_above hparent hne hagain
      · next between habove =>
        split at h
        · cases h
        · -- the directory above is there, and still this one cannot be made
          next refused hrefused =>
          obtain ⟨rfl, hdirectory, rfl⟩ := refusal_eq_error_iff.1 h
          have hthere : above.isEmpty = true ∨ between.hasDirectory above = true := by
            by_cases hempty : above.isEmpty = true
            · exact .inl hempty
            · exact .inr (hasDirectory_of_makeDirectoryPath (by simpa using hempty) habove)
          exact ⟨refused,
            makeDirectoryPath_of_refused hparent hne hrefused hdirectory (.inr hthere)⟩
    · next refused hother hrefused =>
      obtain ⟨rfl, hdirectory, rfl⟩ := refusal_eq_error_iff.1 h
      exact ⟨refused,
        makeDirectoryPath_of_refused hparent hne hrefused hdirectory (.inl (by simpa using hother))⟩
  | case2 path hparent =>
    have hsame := eq_of_makeDirectoryPath_error hparent h
    rw [hsame] at h ⊢
    exact ⟨fault, h⟩

end FileTree

end PublicAssembly
