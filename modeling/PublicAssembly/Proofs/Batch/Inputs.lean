import PublicAssembly.Batch.Inputs
import PublicAssembly.Proofs.Files.Walking

/-!
# The inputs of a batch

Every input of a batch stands for a block of inputs: a directory for the modules in it, each once
and in the order of their components, and anything else for itself. A block is all there is to say
about an input, since no two lists can be its block. So it does not matter in which order a walk
through the directory meets the entries, and the modules, which are no directories, stand for
themselves when they are inputs again.

## Main definitions

* `SearchSettings.ModuleIn`: the modules in a directory;
* `SearchSettings.IsBlock`: what an input stands for.

## Main statements

* `SearchSettings.IsBlock.unique`: an input has one block;
* `SearchSettings.isBlock_blockOf`: a walk through the directories finds the blocks;
* `SearchSettings.expand_blocks`: the inputs of a batch are the blocks of what is given.
-/

namespace PublicAssembly

namespace SearchSettings

variable {settings : SearchSettings} {files : FileTree} {input directory path : Path}

/-! ### Modules -/

/-- An extension is asked for, whatever the case of its ASCII letters, by a text that may have points
in front. -/
def Asks (wanted extension : String) : Prop :=
  ∃ points bare, wanted.toList = points ++ bare ∧ (∀ c ∈ points, c = '.') ∧
    bare.head? ≠ some '.' ∧ bare.map Char.toLower = extension.toList.map Char.toLower

/-- The path leads from a directory down to a file with an extension that is asked for. -/
def ModuleIn (settings : SearchSettings) (files : FileTree) (directory path : Path) : Prop :=
  files.FileBelow directory settings.recursive path ∧
    ∃ extension, path.extension? = some extension ∧
      ∃ wanted ∈ settings.extensions, Asks wanted extension

theorem toList_toLower (text : String) : text.toLower.toList = text.toList.map Char.toLower :=
  String.toList_map

/-- Texts are equal but for the case of their letters if their letters in lower case are the same. -/
theorem equalIgnoringCase_eq (a b : String) :
    Format.equalIgnoringCase a b = (a.toList.map Char.toLower == b.toList.map Char.toLower) := by
  rw [Bool.eq_iff_iff, Format.equalIgnoringCase, beq_iff_eq, beq_iff_eq, ← String.toList_inj,
    toList_toLower, toList_toLower]

/-- A text asks for an extension if it is equal to it without the points in front. -/
theorem asks_iff {wanted extension : String} :
    Asks wanted extension ↔
      Format.equalIgnoringCase (bareExtension wanted) extension = true := by
  rw [equalIgnoringCase_eq, beq_iff_eq, bareExtension, String.toList_ofList]
  constructor
  · rintro ⟨points, bare, hwanted, hpoints, hbare, hsame⟩
    -- the points end where the bare extension begins, which has none in front
    have hdrop : wanted.toList.dropWhile (· == '.') = bare := by
      rw [hwanted, List.dropWhile_append_of_pos fun c hc => beq_iff_eq.2 (hpoints c hc)]
      cases bare with
      | nil => rfl
      | cons c rest =>
        refine List.dropWhile_cons_of_neg fun hc => hbare ?_
        rw [List.head?_cons, beq_iff_eq.1 hc]
    rw [hdrop, hsame]
  · intro h
    refine ⟨_, _, List.takeWhile_append_dropWhile.symm, fun c hc => ?_, fun hhead => ?_, h⟩
    · have hpoint := List.mem_takeWhile_imp hc
      exact beq_iff_eq.1 hpoint
    · have hnot := List.head?_dropWhile_not (· == '.') wanted.toList
      rw [hhead] at hnot
      cases hnot

/-- A module has an extension that is asked for. -/
theorem isModule_iff :
    settings.isModule path = true ↔ ∃ extension, path.extension? = some extension ∧
      ∃ wanted ∈ settings.extensions, Asks wanted extension := by
  rw [isModule]
  cases path.extension? with
  | none => simp
  | some extension => simp [asks_iff]

/-! ### Blocks -/

/-- What an input stands for. -/
inductive IsBlock (settings : SearchSettings) (files : FileTree) (input : Path) :
    List Path → Prop where
  /-- Anything but a directory stands for itself. -/
  | kept (h : files.hasDirectory input = false) : IsBlock settings files input [input]
  /-- So does a directory without modules. -/
  | bare (h : files.hasDirectory input = true)
      (hnone : ∀ path, ¬ settings.ModuleIn files input path) : IsBlock settings files input [input]
  /-- Any other directory stands for the modules in it, each once and in order. -/
  | modules {block : List Path} (h : files.hasDirectory input = true) (hne : block ≠ [])
      (hsorted : block.Pairwise Path.Precedes)
      (hmem : ∀ path, path ∈ block ↔ settings.ModuleIn files input path) :
      IsBlock settings files input block

/-- No block is empty. -/
theorem IsBlock.ne_nil {block : List Path} (h : IsBlock settings files input block) :
    block ≠ [] := by
  cases h with
  | kept => exact List.cons_ne_nil _ _
  | bare => exact List.cons_ne_nil _ _
  | modules _ hne => exact hne

/-- Lists in order with the same members are the same. -/
theorem eq_of_precedes {paths others : List Path} (hpaths : paths.Pairwise Path.Precedes)
    (hothers : others.Pairwise Path.Precedes) (h : ∀ path, path ∈ paths ↔ path ∈ others) :
    paths = others := by
  have hne : ∀ {a b : Path}, a.Precedes b → a ≠ b := by
    rintro a b hab rfl
    exact hab.asymm hab
  -- both lists are sorted arrangements of the same members
  have hperm : paths.Perm others :=
    (List.perm_ext_iff_of_nodup (hpaths.imp hne) (hothers.imp hne)).2 h
  exact hperm.eq_of_pairwise (fun a b _ _ hab hba => absurd hba hab.asymm) hpaths hothers

/-- An input has one block. -/
theorem IsBlock.unique {block block' : List Path} (h : IsBlock settings files input block)
    (h' : IsBlock settings files input block') : block = block' := by
  cases h with
  | kept hnot =>
    cases h' with
    | kept => rfl
    | bare => rfl
    | modules hdirectory => rw [hnot] at hdirectory; cases hdirectory
  | bare hdirectory hnone =>
    cases h' with
    | kept => rfl
    | bare => rfl
    | modules _ hne _ hmem =>
      -- a module below the directory is in the one block, and the other says that there is none
      obtain ⟨path, hpath⟩ := List.exists_mem_of_ne_nil _ hne
      exact absurd ((hmem path).1 hpath) (hnone path)
  | modules hdirectory hne hsorted hmem =>
    cases h' with
    | kept hnot => rw [hnot] at hdirectory; cases hdirectory
    | bare _ hnone =>
      obtain ⟨path, hpath⟩ := List.exists_mem_of_ne_nil _ hne
      exact absurd ((hmem path).1 hpath) (hnone path)
    | modules _ _ hsorted' hmem' =>
      exact eq_of_precedes hsorted hsorted' fun path => (hmem path).trans (hmem' path).symm

/-! ### Walks through the directories -/

/-- The inputs that an input stands for, if it is a directory with the given files in it. -/
def blockOf (settings : SearchSettings) (files : FileTree) (listed : List Path) (input : Path) :
    List Path :=
  if files.hasDirectory input then
    match (listed.filter settings.isModule).mergeSort Path.le with
    | [] => [input]
    | modules => modules
  else [input]

/-- The inputs that some inputs stand for, when the walks through the directories are given. -/
def expandBy (settings : SearchSettings) (files : FileTree)
    (walk : Path → List (Path × FileEntry)) (inputs : List Path) : List Path :=
  inputs.flatMap fun input => settings.blockOf files (FileTree.filesOf (walk input)) input

/-- An input stands for what the walk in the order of the entries finds. -/
theorem expandOne_eq :
    settings.expandOne files input =
      settings.blockOf files (FileTree.filesOf (files.entriesIn input settings.recursive)) input := by
  rw [← FileTree.filesIn_eq]
  rfl

/-- A walk through the directories finds the blocks. -/
theorem isBlock_blockOf (htidy : files.Tidy) {walk : List (Path × FileEntry)}
    (hwalk : files.hasDirectory input = true → files.IsWalk input settings.recursive walk) :
    IsBlock settings files input (settings.blockOf files (FileTree.filesOf walk) input) := by
  rw [blockOf]
  by_cases hdirectory : files.hasDirectory input = true
  · rw [if_pos hdirectory]
    have hlisted := hwalk hdirectory
    -- what is sorted are the modules among the files that the walk meets
    have hmem : ∀ path, path ∈ ((FileTree.filesOf walk).filter settings.isModule).mergeSort Path.le ↔
        settings.ModuleIn files input path := by
      intro path
      rw [(List.mergeSort_perm _ _).mem_iff, List.mem_filter, hlisted.mem_filesOf_iff, isModule_iff,
        ModuleIn]
    have hsorted : (((FileTree.filesOf walk).filter settings.isModule).mergeSort Path.le).Pairwise
        Path.Precedes := by
      refine Path.pairwise_mergeSort_precedes ((hlisted.nodup_filesOf htidy).filter _) ?_
      intro a ha b hb
      exact (hlisted.mem_filesOf_iff.1 (List.mem_of_mem_filter ha)).eq_of_sameAs htidy
        (hlisted.mem_filesOf_iff.1 (List.mem_of_mem_filter hb))
    split
    · next hnone =>
      rw [hnone] at hmem
      exact .bare hdirectory fun path hpath => List.not_mem_nil ((hmem path).2 hpath)
    · next hne => exact .modules hdirectory hne hsorted hmem
  · rw [if_neg hdirectory]
    exact .kept (Bool.eq_false_iff.2 hdirectory)

/-- What an input stands for is its block. -/
theorem isBlock_expandOne (htidy : files.Tidy) (input : Path) :
    IsBlock settings files input (settings.expandOne files input) := by
  rw [expandOne_eq]
  exact isBlock_blockOf htidy fun _ => FileTree.isWalk_entriesIn htidy _ _

/-- What an input stands for, stands for itself. -/
theorem IsBlock.expandOne_of_mem (htidy : files.Tidy) {block : List Path}
    (h : IsBlock settings files input block) (hpath : path ∈ block) :
    settings.expandOne files path = [path] := by
  cases h with
  | kept hnot =>
    rw [List.mem_singleton.1 hpath]
    exact (isBlock_expandOne htidy _).unique (.kept hnot)
  | bare hdirectory hnone =>
    rw [List.mem_singleton.1 hpath]
    exact (isBlock_expandOne htidy _).unique (.bare hdirectory hnone)
  | modules _ _ _ hmem =>
    have hfile : files.FileBelow input settings.recursive path := ((hmem path).1 hpath).1
    exact (isBlock_expandOne htidy _).unique (.kept (hfile.not_hasDirectory htidy))

/-- The inputs of a batch are the blocks of what is given, one behind the other. They do not depend
on the order in which the directories are walked through, and stand for themselves. -/
theorem expand_blocks (settings : SearchSettings) (htidy : files.Tidy)
    {walk : Path → List (Path × FileEntry)} {inputs : List Path}
    (hwalk : ∀ input ∈ inputs, files.hasDirectory input = true →
      files.IsWalk input settings.recursive (walk input)) :
    settings.expandBy files walk inputs = settings.expand files inputs ∧
      (∃ blocks, settings.expand files inputs = blocks.flatten ∧
        List.Forall₂ (IsBlock settings files) inputs blocks ∧ ∀ block ∈ blocks, block ≠ []) ∧
      settings.expand files (settings.expand files inputs) = settings.expand files inputs := by
  refine ⟨?order, ⟨inputs.map (settings.expandOne files), ?_, ?_, ?_⟩, ?again⟩
  case order =>
    exact List.flatMap_congr fun input hinput =>
      (isBlock_blockOf htidy (hwalk input hinput)).unique (isBlock_expandOne htidy input)
  · rw [expand, List.flatMap_def]
  · rw [List.forall₂_map_right_iff, List.forall₂_same]
    exact fun input _ => isBlock_expandOne htidy input
  · intro block hblock
    obtain ⟨input, -, rfl⟩ := List.mem_map.1 hblock
    exact (isBlock_expandOne htidy input).ne_nil
  case again =>
    rw [expand, expand, List.flatMap_assoc]
    refine List.flatMap_congr fun input _ => ?_
    -- each input of a block is looked at on its own, and is no directory with modules
    have hself : ∀ path ∈ settings.expandOne files input, settings.expandOne files path = [path] :=
      fun path => (isBlock_expandOne htidy input).expandOne_of_mem htidy
    rw [List.flatMap_congr hself, List.flatMap_singleton']

/-- A tree with a directory of modules, one that is named like a module, and one without any. -/
def libraryFiles : FileTree where
  entries := [(["lib"], .directory), (["lib", "b.DLL"], .file .empty), (["lib", "notes.txt"], .file .empty),
    (["lib", "sub.dll"], .directory), (["lib", "sub.dll", "a.Exe"], .file .empty),
    (["lib", "Main.exe"], .file .empty), (["bare"], .directory), (["bare", "dll"], .file .empty)]

/-- Modules in all directories, asked for with points and in capitals. -/
def librarySettings : SearchSettings where
  extensions := ["..dll", "EXE"]
  recursive := true

/-- No place of the tree is listed twice. -/
theorem tidy_libraryFiles : libraryFiles.Tidy where
  plainName := by
    simp only [Path.plainName_iff]
    decide
  nodup := by decide

theorem modulesIn_bare : librarySettings.modulesIn libraryFiles ⟨"bare"⟩ = [] := by
  have hfound : (libraryFiles.filesIn ⟨"bare"⟩ librarySettings.recursive).filter
      librarySettings.isModule = [] := by
    unfold isModule
    simp only [equalIgnoringCase_eq]
    decide +kernel
  rw [modulesIn, hfound, List.mergeSort_nil]

theorem modulesIn_lib :
    librarySettings.modulesIn libraryFiles ⟨"lib/"⟩ =
      [⟨"lib/Main.exe"⟩, ⟨"lib/b.DLL"⟩, ⟨"lib/sub.dll/a.Exe"⟩] := by
  have hfound : (libraryFiles.filesIn ⟨"lib/"⟩ librarySettings.recursive).filter
      librarySettings.isModule = [⟨"lib/b.DLL"⟩, ⟨"lib/sub.dll/a.Exe"⟩, ⟨"lib/Main.exe"⟩] := by
    unfold isModule
    simp only [equalIgnoringCase_eq]
    decide +kernel
  have hfront : Path.le ⟨"lib/b.DLL"⟩ ⟨"lib/sub.dll/a.Exe"⟩ = true := by decide +kernel
  have hbehind : Path.le ⟨"lib/b.DLL"⟩ ⟨"lib/Main.exe"⟩ = false := by decide +kernel
  rw [modulesIn, hfound]
  simp [List.mergeSort, hfront, hbehind]

/-- Points, cases and names of directories do not hide a module, a directory without modules is kept
with what is not there, and it does not matter that the walks go backwards. -/
theorem expand_blocks_backwards :
    librarySettings.expandBy libraryFiles
        (fun directory => (libraryFiles.entriesIn directory true).reverse)
        [⟨"bare"⟩, ⟨"lib/"⟩, ⟨"none.dll"⟩] =
      [⟨"bare"⟩, ⟨"lib/Main.exe"⟩, ⟨"lib/b.DLL"⟩, ⟨"lib/sub.dll/a.Exe"⟩, ⟨"none.dll"⟩] := by
  have hthere : libraryFiles.hasDirectory ⟨"bare"⟩ = true ∧
      libraryFiles.hasDirectory ⟨"lib/"⟩ = true ∧ libraryFiles.hasDirectory ⟨"none.dll"⟩ = false := by
    decide +kernel
  have hexpand : librarySettings.expand libraryFiles [⟨"bare"⟩, ⟨"lib/"⟩, ⟨"none.dll"⟩] =
      [⟨"bare"⟩, ⟨"lib/Main.exe"⟩, ⟨"lib/b.DLL"⟩, ⟨"lib/sub.dll/a.Exe"⟩, ⟨"none.dll"⟩] := by
    simp [expand, expandOne, modulesIn_bare, modulesIn_lib, hthere]
  rw [← hexpand]
  exact (expand_blocks librarySettings tidy_libraryFiles fun directory _ _ =>
    (FileTree.isWalk_entriesIn tidy_libraryFiles directory true).perm (List.reverse_perm _)).1

end SearchSettings

end PublicAssembly
