import PublicAssembly.Proofs.Output.Containment

/-!
# Walking through directories

A walk through a directory lists the files in it, or at any depth below it, in an order of its own.
The path of such a file is that of the directory with the names on the way behind it. So different
files have different components, and their order by components is strict.

## Main definitions

* `FileTree.Tidy`: what holds of every tree of files;
* `FileTree.Below`: a path that leads from a directory down to an entry;
* `FileTree.IsWalk`: each entry below a directory with its path, once, in any order.

## Main statements

* `Path.le_antisymm_iff`: paths that are in order both ways are the same;
* `FileTree.isWalk_entriesIn`: a tidy tree can be walked through in the order of its entries;
* `FileTree.filesIn_eq`: the files in a directory are those of that walk;
* `FileTree.FileBelow.eq_of_sameAs`: the same components lead to the same file;
* `FileTree.FileBelow.not_hasDirectory`: a path down to a file leads to no directory.
-/

namespace PublicAssembly

open Files (Fault)
open Reading
open Text (segments)

/-! ### The order of paths -/

namespace Component

/-- Components are in order one way or the other. -/
theorem le_total (a b : Component) : a.le b = true ∨ b.le a = true := by
  cases a <;> cases b <;> simp [le, rank, String.le_total]

/-- What is in order behind something is behind all that comes before that. -/
theorem le_trans {a b c : Component} (hab : a.le b = true) (hbc : b.le c = true) :
    a.le c = true := by
  cases a <;> cases b <;> cases c <;> simp [le, rank] at hab hbc ⊢
  exact String.le_trans hab hbc

/-- Components that are in order both ways are the same. -/
theorem le_antisymm {a b : Component} (hab : a.le b = true) (hba : b.le a = true) : a = b := by
  cases a <;> cases b <;> simp [le, rank] at hab hba ⊢
  exact String.le_antisymm hab hba

end Component

namespace Path

theorem componentsLe_total (as bs : List Component) :
    componentsLe as bs = true ∨ componentsLe bs as = true := by
  induction as generalizing bs with
  | nil => exact .inl rfl
  | cons a as ih =>
    cases bs with
    | nil => exact .inr rfl
    | cons b bs =>
      rw [componentsLe, componentsLe]
      by_cases h : a = b
      · rw [if_pos h, if_pos h.symm]
        exact ih bs
      · rw [if_neg h, if_neg (Ne.symm h)]
        exact Component.le_total a b

theorem componentsLe_trans {as bs cs : List Component} (hab : componentsLe as bs = true)
    (hbc : componentsLe bs cs = true) : componentsLe as cs = true := by
  induction as generalizing bs cs with
  | nil => rfl
  | cons a as ih =>
    cases bs with
    | nil => cases hab
    | cons b bs =>
      cases cs with
      | nil => cases hbc
      | cons c cs =>
        rw [componentsLe] at hab hbc ⊢
        by_cases hab' : a = b
        · subst hab'
          by_cases hac : a = c
          · rw [if_pos hac] at hbc ⊢
            rw [if_pos rfl] at hab
            exact ih hab hbc
          · rwa [if_neg hac] at hbc ⊢
        · rw [if_neg hab'] at hab
          by_cases hbc' : b = c
          · subst hbc'
            rwa [if_neg hab']
          · rw [if_neg hbc'] at hbc
            -- the first and the last differ, or all three would be the same
            have hac : a ≠ c := by
              rintro rfl
              exact hab' (Component.le_antisymm hab hbc)
            rw [if_neg hac]
            exact Component.le_trans hab hbc

theorem componentsLe_antisymm {as bs : List Component} (hab : componentsLe as bs = true)
    (hba : componentsLe bs as = true) : as = bs := by
  induction as generalizing bs with
  | nil =>
    cases bs with
    | nil => rfl
    | cons b bs => cases hba
  | cons a as ih =>
    cases bs with
    | nil => cases hab
    | cons b bs =>
      rw [componentsLe] at hab hba
      -- the first components that differ decide, and they cannot do so both ways
      by_cases h : a = b
      · rw [if_pos h] at hab
        rw [if_pos h.symm] at hba
        rw [h, ih hab hba]
      · rw [if_neg h] at hab
        rw [if_neg (Ne.symm h)] at hba
        exact absurd (Component.le_antisymm hab hba) h

/-- Paths are in order one way or the other. -/
theorem le_total (a b : Path) : (a.le b || b.le a) = true := by
  rw [Bool.or_eq_true]
  exact componentsLe_total a.components b.components

/-- What is in order behind a path is behind all that come before that path. -/
theorem le_trans {a b c : Path} (hab : a.le b = true) (hbc : b.le c = true) : a.le c = true :=
  componentsLe_trans hab hbc

/-- Paths that are in order both ways are the same. -/
theorem le_antisymm_iff {a b : Path} : a.le b = true ∧ b.le a = true ↔ a.sameAs b = true := by
  rw [sameAs, beq_iff_eq]
  constructor
  · rintro ⟨hab, hba⟩
    exact componentsLe_antisymm hab hba
  · intro h
    rw [le, le, h, and_self]
    exact (componentsLe_total _ _).elim id id

/-- The paths are in order, and they are not the same. -/
def Precedes (a b : Path) : Prop :=
  a.le b = true ∧ a.sameAs b = false

/-- No path is in front of one that is in front of it. -/
theorem Precedes.asymm {a b : Path} (h : a.Precedes b) : ¬ b.Precedes a := by
  rintro ⟨hba, -⟩
  have hsame := le_antisymm_iff.1 ⟨h.1, hba⟩
  rw [h.2] at hsame
  cases hsame

/-- Sorting puts paths that are not the same in front of each other. -/
theorem pairwise_mergeSort_precedes {paths : List Path} (hnodup : paths.Nodup)
    (hdiffer : ∀ a ∈ paths, ∀ b ∈ paths, a.sameAs b = true → a = b) :
    (paths.mergeSort le).Pairwise Precedes := by
  have hperm := List.mergeSort_perm paths le
  have hsorted : (paths.mergeSort le).Pairwise fun a b => a.le b = true :=
    @List.pairwise_mergeSort Path le (fun _ _ _ => le_trans) le_total paths
  refine (hsorted.and (hperm.nodup_iff.2 hnodup)).imp_of_mem ?_
  rintro a b ha hb ⟨hle, hne⟩
  refine ⟨hle, Bool.eq_false_iff.2 fun hsame => hne ?_⟩
  exact hdiffer a (hperm.mem_iff.1 ha) b (hperm.mem_iff.1 hb) hsame

end Path

/-! ### Paths below a directory -/

namespace FileTree

variable {tree : FileTree} {directory path : Path} {top place : Location} {names : List String}

/-- One more name leads one step further down. -/
theorem pathBelow_append (directory : Path) (names : List String) (name : String) :
    pathBelow directory (names ++ [name]) = (pathBelow directory names).join ⟨name⟩ := by
  rw [pathBelow, List.foldl_append]
  rfl

/-- The names on the way down are the last components. -/
theorem components_pathBelow (directory : Path) (hnames : ∀ name ∈ names, Path.PlainName name) :
    (pathBelow directory names).components = directory.components ++ names.map .name := by
  -- a path is made longer at its end, so the induction takes off the last name
  induction names using List.reverseRecOn with
  | nil => simp [pathBelow]
  | append_singleton names name ih =>
    rw [List.forall_mem_append, List.forall_mem_singleton] at hnames
    rw [pathBelow_append, Path.components_join hnames.2, ih hnames.1]
    simp

/-- A name in a directory can only be found in a directory. -/
theorem exists_of_locate_join {name : String} (hempty : directory.isEmpty = false)
    (hname : Path.PlainName name) (h : tree.locate (directory.join ⟨name⟩) = .ok place) :
    ∃ above, tree.locate directory = .ok above ∧ place = above ++ [name] := by
  obtain ⟨husable, hfollow⟩ := locate_eq_ok_iff.1 h
  obtain ⟨front, hjoin, hchars⟩ := Path.chars_join hname hempty
  obtain ⟨more, hmore⟩ : ∃ more, (directory.join ⟨name⟩).chars = directory.chars ++ more := by
    rcases hchars with hchars | hchars
    · exact ⟨_, by rw [hjoin, hchars]⟩
    · exact ⟨name.toList, by rw [hjoin, hchars, List.append_assoc]; rfl⟩
  rw [startOf_eq_of_chars_eq hmore hempty, hjoin, Text.segments_append_cons,
    Text.segments_of_not_mem hname.no_separator, follow_append_eq_ok_iff] at hfollow
  obtain ⟨above, habove, hstep⟩ := hfollow
  obtain ⟨hdirectory, next, hnext, hplace⟩ := follow_cons_eq_ok_iff.1 hstep
  refine ⟨above, locate_eq_ok_iff.2 ⟨usable_of_chars_eq hmore hempty husable, ?_⟩, ?_⟩
  · rcases hchars with hchars | hchars
    · rwa [hchars]
    · -- the slash at the end of the directory is followed by an empty piece
      rw [hchars, Text.segments_append_cons, follow_append_eq_ok_iff]
      exact ⟨above, habove, follow_blank (by simp [segments]) hdirectory⟩
  · simp only [nextPlace, hname.ofSegment?_eq, ite_error_eq_ok_iff, Except.ok.injEq] at hnext
    cases hplace
    exact hnext.2.symm

/-- A path with text still has some with names behind it. -/
theorem isEmpty_pathBelow (hempty : directory.isEmpty = false)
    (hnames : ∀ name ∈ names, Path.PlainName name) : (pathBelow directory names).isEmpty = false := by
  induction names using List.reverseRecOn with
  | nil => exact hempty
  | append_singleton names name ih =>
    rw [List.forall_mem_append, List.forall_mem_singleton] at hnames
    obtain ⟨front, hjoin, -⟩ := Path.chars_join hnames.2 (ih hnames.1)
    rw [pathBelow_append, Path.isEmpty, hjoin]
    simp

/-- The names on the way down from a directory lead to the place with these names, if anywhere. -/
theorem eq_of_locate_pathBelow (htop : tree.locate directory = .ok top)
    (hnames : ∀ name ∈ names, Path.PlainName name)
    (h : tree.locate (pathBelow directory names) = .ok place) : place = top ++ names := by
  have hempty : directory.isEmpty = false := (locate_eq_ok_iff.1 htop).1.not_empty
  induction names using List.reverseRecOn generalizing place with
  | nil =>
    cases htop.symm.trans h
    exact (List.append_nil _).symm
  | append_singleton names name ih =>
    rw [List.forall_mem_append, List.forall_mem_singleton] at hnames
    rw [pathBelow_append] at h
    -- the last name leads on from the place that the others lead to
    obtain ⟨above, habove, rfl⟩ :=
      exists_of_locate_join (isEmpty_pathBelow hempty hnames.1) hnames.2 h
    rw [ih hnames.1 habove, List.append_assoc]

/-! ### Files below a directory -/

/-- What holds of every tree of files: the places are told by names, and each is listed once. -/
structure Tidy (tree : FileTree) : Prop where
  /-- Every name on the way to a place is one component of a path. -/
  plainName : ∀ entry ∈ tree.entries, ∀ name ∈ entry.1, Path.PlainName name
  /-- Every place is listed once. -/
  nodup : (tree.entries.map Prod.fst).Nodup

/-- The path leads from a directory down to an entry, which is directly in the directory unless all
depths are asked for. -/
def Below (tree : FileTree) (directory : Path) (deep : Bool) (path : Path) (entry : FileEntry) :
    Prop :=
  ∃ top names, tree.locate directory = .ok top ∧ (names.length = 1 ∨ deep = true ∧ names ≠ []) ∧
    tree.get? (top ++ names) = some entry ∧ path = pathBelow directory names

/-- The path leads from a directory down to a file. -/
def FileBelow (tree : FileTree) (directory : Path) (deep : Bool) (path : Path) : Prop :=
  ∃ content, tree.Below directory deep path (.file content)

/-- A walk through a directory: each entry below it with its path, once, in any order. -/
structure IsWalk (tree : FileTree) (directory : Path) (deep : Bool)
    (walk : List (Path × FileEntry)) : Prop where
  /-- No entry is met twice. -/
  nodup : walk.Nodup
  /-- The entries are those below the directory. -/
  mem_iff : ∀ path entry, (path, entry) ∈ walk ↔ tree.Below directory deep path entry

/-- The paths of the files that a walk meets. -/
def filesOf (walk : List (Path × FileEntry)) : List Path :=
  walk.filterMap fun
    | (path, .file _) => some path
    | (_, .directory) => none

/-- The walk that meets the entries as the tree lists them. -/
def entriesIn (tree : FileTree) (directory : Path) (deep : Bool) : List (Path × FileEntry) :=
  match tree.locate directory with
  | .error _ => []
  | .ok top =>
    tree.entries.filterMap fun (place, entry) =>
      match namesBelow? top place with
      | some names =>
        if names.length = 1 ∨ (deep ∧ names ≠ []) then some (pathBelow directory names, entry)
        else none
      | none => none

/-- What is at a place other than the root is listed. -/
theorem mem_entries_of_get? {entry : FileEntry} (h : tree.get? place = some entry)
    (hplace : place ≠ []) : (place, entry) ∈ tree.entries := by
  rw [get?, if_neg hplace, List.lookup_eq_some_iff] at h
  obtain ⟨before, after, hentries, -⟩ := h
  rw [hentries]
  simp

/-- What is listed in a tidy tree is at its place. -/
theorem Tidy.get?_of_mem (htidy : tree.Tidy) {entry : FileEntry}
    (h : (place, entry) ∈ tree.entries) (hplace : place ≠ []) : tree.get? place = some entry := by
  obtain ⟨before, after, hentries⟩ := List.append_of_mem h
  have hnodup := htidy.nodup
  rw [hentries, (List.perm_middle.map _).nodup_iff, List.map_cons, List.nodup_cons,
    List.map_append] at hnodup
  rw [get?, if_neg hplace, List.lookup_eq_some_iff]
  refine ⟨before, after, hentries, fun other hother => bne_iff_ne.2 ?_⟩
  rintro rfl
  exact hnodup.1 (List.mem_append_left _ (List.mem_map.2 ⟨other, hother, rfl⟩))

/-- The names on the way down to an entry are names. -/
theorem Tidy.plainName_of_get? (htidy : tree.Tidy) {entry : FileEntry}
    (h : tree.get? (top ++ names) = some entry) : ∀ name ∈ names, Path.PlainName name := by
  intro name hname
  have hplace : top ++ names ≠ [] := List.append_ne_nil_of_right_ne_nil _ (List.ne_nil_of_mem hname)
  exact htidy.plainName _ (mem_entries_of_get? h hplace) name (List.mem_append_right _ hname)

/-- Different names lead to different components. -/
theorem eq_of_components_pathBelow {others : List String}
    (hnames : ∀ name ∈ names, Path.PlainName name) (hothers : ∀ name ∈ others, Path.PlainName name)
    (h : (pathBelow directory names).components = (pathBelow directory others).components) :
    names = others := by
  rw [components_pathBelow directory hnames, components_pathBelow directory hothers,
    List.append_cancel_left_eq] at h
  exact (List.map_inj_right fun _ _ => Component.name.inj).1 h

/-- The same components lead to the same file. -/
theorem FileBelow.eq_of_sameAs (htidy : tree.Tidy) {deep : Bool} {other : Path}
    (h : tree.FileBelow directory deep path) (hother : tree.FileBelow directory deep other)
    (hsame : path.sameAs other = true) : path = other := by
  obtain ⟨content, top, names, -, -, hfile, rfl⟩ := h
  obtain ⟨content', top', names', -, -, hfile', rfl⟩ := hother
  rw [Path.sameAs, beq_iff_eq] at hsame
  rw [eq_of_components_pathBelow (htidy.plainName_of_get? hfile) (htidy.plainName_of_get? hfile')
    hsame]

/-- A path that leads down to a file leads to no directory. -/
theorem FileBelow.not_hasDirectory (htidy : tree.Tidy) {deep : Bool}
    (h : tree.FileBelow directory deep path) : tree.hasDirectory path = false := by
  obtain ⟨content, top, names, htop, -, hfile, rfl⟩ := h
  rw [← Bool.not_eq_true, hasDirectory_iff]
  rintro ⟨place, hplace, hdirectory⟩
  rw [eq_of_locate_pathBelow htop (htidy.plainName_of_get? hfile) hplace, hfile] at hdirectory
  cases hdirectory

/-! ### Walks -/

/-- A file is met by a walk if its path leads down to it. -/
theorem mem_filesOf_iff {walk : List (Path × FileEntry)} :
    path ∈ filesOf walk ↔ ∃ content, (path, .file content) ∈ walk := by
  rw [filesOf, List.mem_filterMap]
  constructor
  · rintro ⟨⟨other, _ | _⟩, hmem, hpath⟩
    · cases hpath
      exact ⟨_, hmem⟩
    · cases hpath
  · rintro ⟨content, hmem⟩
    exact ⟨_, hmem, rfl⟩

/-- The files that a walk meets are those below the directory. -/
theorem IsWalk.mem_filesOf_iff {deep : Bool} {walk : List (Path × FileEntry)}
    (h : tree.IsWalk directory deep walk) :
    path ∈ filesOf walk ↔ tree.FileBelow directory deep path := by
  simp only [FileTree.mem_filesOf_iff, h.mem_iff, FileBelow]

/-- A path leads down to one entry. -/
theorem Below.entry_unique (htidy : tree.Tidy) {deep : Bool} {entry other : FileEntry}
    (h : tree.Below directory deep path entry) (hother : tree.Below directory deep path other) :
    entry = other := by
  obtain ⟨top, names, htop, -, hentry, rfl⟩ := h
  obtain ⟨top', names', htop', -, hentry', hsame⟩ := hother
  cases htop.symm.trans htop'
  obtain rfl := eq_of_components_pathBelow (htidy.plainName_of_get? hentry)
    (htidy.plainName_of_get? hentry') (congrArg Path.components hsame)
  exact Option.some.inj (hentry.symm.trans hentry')

/-- A walk meets no file twice. -/
theorem IsWalk.nodup_filesOf (htidy : tree.Tidy) {deep : Bool} {walk : List (Path × FileEntry)}
    (h : tree.IsWalk directory deep walk) : (filesOf walk).Nodup := by
  -- a path that is met twice would be met with two entries
  refine List.pairwise_filterMap.2 (h.nodup.imp_of_mem ?_)
  rintro ⟨path, entry⟩ ⟨other, found⟩ hentry hfound hne _ hpath _ hother rfl
  have hbelow := (h.mem_iff _ _).1 hentry
  have hbelow' := (h.mem_iff _ _).1 hfound
  cases entry <;> cases hpath
  cases found <;> cases hother
  exact hne (congrArg _ (hbelow.entry_unique htidy hbelow'))

/-- A place is some names below another one. -/
theorem namesBelow?_eq_some_iff : namesBelow? top place = some names ↔ place = top ++ names := by
  rw [namesBelow?]
  by_cases hbelow : top <+: place
  · obtain ⟨rest, rfl⟩ := hbelow
    simp
  · have hne : place ≠ top ++ names := fun heq => hbelow (heq ▸ List.prefix_append _ _)
    rw [← List.isPrefixOf_iff_prefix] at hbelow
    simp [hbelow, hne]

/-- What a walk meets where the tree lists an entry. -/
theorem met_eq_some_iff {deep : Bool} {listed : Location × FileEntry} {entry : FileEntry} :
    (match namesBelow? top listed.1 with
      | some names =>
        if names.length = 1 ∨ (deep ∧ names ≠ []) then some (pathBelow directory names, listed.2)
        else none
      | none => none) = some (path, entry) ↔
      ∃ names, listed = (top ++ names, entry) ∧ (names.length = 1 ∨ deep = true ∧ names ≠ []) ∧
        path = pathBelow directory names := by
  obtain ⟨here, found⟩ := listed
  dsimp only
  cases hnames : namesBelow? top here with
  | none =>
    refine iff_of_false (by simp) ?_
    rintro ⟨names, heq, -⟩
    rw [Prod.mk.injEq, ← namesBelow?_eq_some_iff, hnames] at heq
    cases heq.1
  | some names =>
    -- the entry lies below the top, and its depth decides whether the walk comes to it
    obtain rfl := namesBelow?_eq_some_iff.1 hnames
    by_cases hdepth : names.length = 1 ∨ deep = true ∧ names ≠ []
    · simp [hdepth, eq_comm, and_comm]
    · simp [hdepth]

/-- The entries of a tidy tree are a walk in the order in which they are listed. -/
theorem isWalk_entriesIn (htidy : tree.Tidy) (directory : Path) (deep : Bool) :
    tree.IsWalk directory deep (tree.entriesIn directory deep) := by
  rw [entriesIn]
  cases htop : tree.locate directory with
  | error fault =>
    refine ⟨List.nodup_nil, fun path entry => iff_of_false List.not_mem_nil ?_⟩
    rintro ⟨top, names, hplace, -⟩
    rw [htop] at hplace
    cases hplace
  | ok top =>
    refine ⟨?nodup, fun path entry => ?mem_iff⟩
    case nodup =>
      -- two entries have different places, so the names to them differ
      have hplaces : tree.entries.Pairwise fun one other => one.1 ≠ other.1 :=
        List.pairwise_map.1 htidy.nodup
      refine List.pairwise_filterMap.2 (hplaces.imp_of_mem ?_)
      rintro one other hone hother hne ⟨path, entry⟩ hmet _ hmet' rfl
      obtain ⟨names, rfl, -, rfl⟩ := met_eq_some_iff.1 hmet
      obtain ⟨names', rfl, -, hsame⟩ := met_eq_some_iff.1 hmet'
      refine hne (congrArg (top ++ ·) (eq_of_components_pathBelow (fun name hname => ?_)
        (fun name hname => ?_) (congrArg Path.components hsame)))
      · exact htidy.plainName _ hone name (List.mem_append_right _ hname)
      · exact htidy.plainName _ hother name (List.mem_append_right _ hname)
    case mem_iff =>
      rw [List.mem_filterMap]
      constructor
      · rintro ⟨listed, hlisted, hmet⟩
        obtain ⟨names, rfl, hdepth, rfl⟩ := met_eq_some_iff.1 hmet
        have hne : names ≠ [] := by
          rintro rfl
          simp at hdepth
        exact ⟨top, names, htop, hdepth,
          htidy.get?_of_mem hlisted (List.append_ne_nil_of_right_ne_nil _ hne), rfl⟩
      · rintro ⟨top', names, hplace, hdepth, hentry, rfl⟩
        cases htop.symm.trans hplace
        have hne : names ≠ [] := by
          rintro rfl
          simp at hdepth
        exact ⟨(top ++ names, entry),
          mem_entries_of_get? hentry (List.append_ne_nil_of_right_ne_nil _ hne),
          met_eq_some_iff.2 ⟨names, rfl, hdepth, rfl⟩⟩

/-- The files in a directory are those that a walk in the order of the entries meets. -/
theorem filesIn_eq (tree : FileTree) (directory : Path) (deep : Bool) :
    tree.filesIn directory deep = filesOf (tree.entriesIn directory deep) := by
  rw [filesIn, entriesIn]
  cases tree.locate directory with
  | error fault => rfl
  | ok top =>
    rw [filesOf, List.filterMap_filterMap]
    refine List.filterMap_congr fun listed _ => ?_
    obtain ⟨place, entry⟩ := listed
    cases entry <;> dsimp only <;> grind

/-- A walk may meet the entries in any order. -/
theorem IsWalk.perm {deep : Bool} {walk walk' : List (Path × FileEntry)}
    (h : tree.IsWalk directory deep walk) (hperm : walk'.Perm walk) :
    tree.IsWalk directory deep walk' where
  nodup := hperm.nodup_iff.2 h.nodup
  mem_iff path entry := hperm.mem_iff.trans (h.mem_iff path entry)

end FileTree

end PublicAssembly
