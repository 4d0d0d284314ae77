import Mathlib.Data.List.DropRight
import PublicAssembly.Files.Change
import PublicAssembly.Proofs.Reading

/-!
# Following paths

A path is followed piece by piece, and every piece but the last leads on from a directory. So a path
leads to the same place in every tree that has these directories (`FileTree.follow_mono`), and
whoever reaches a path has been in the directory above it.

## Main definitions

* `Path.Usable`: a path that may be followed at all.

## Main statements

* `FileTree.follow_append`: a path in two parts is followed part by part;
* `Path.chars_of_parent?`: a path is its parent with more pieces behind it.
-/

namespace PublicAssembly

open Files (Fault)
open Reading

namespace Text

variable {separator : Char} {pieces : List (List Char)}

/-- The pieces on both sides of a separator. -/
theorem segments_append_cons (separator : Char) (front behind : List Char) :
    segments separator (front ++ separator :: behind) =
      segments separator front ++ segments separator behind := by
  induction front with
  | nil => simp [segments]
  | cons c front ih =>
    rw [List.cons_append, segments, segments, ih]
    split
    · rfl
    · cases hfront : segments separator front with
      | nil => exact absurd hfront (segments_ne_nil separator front)
      | cons piece pieces => rfl

/-- Characters without a separator are one piece. -/
theorem segments_of_not_mem {cs : List Char} (h : separator ∉ cs) : segments separator cs = [cs] := by
  induction cs with
  | nil => rfl
  | cons c cs ih =>
    rw [List.mem_cons, not_or] at h
    rw [segments, if_neg (Ne.symm h.1), ih h.2]

/-- Pieces are put together in two parts. -/
theorem joinWith_append {front behind : List (List Char)} (hfront : front ≠ [])
    (hbehind : behind ≠ []) :
    joinWith separator (front ++ behind) =
      joinWith separator front ++ separator :: joinWith separator behind := by
  induction front with
  | nil => exact absurd rfl hfront
  | cons piece rest ih =>
    by_cases hrest : rest = []
    · subst hrest
      rw [List.singleton_append, joinWith_cons hbehind]
      rfl
    · rw [List.cons_append, joinWith_cons (by simp [hrest]), ih hrest, joinWith_cons hrest]
      simp

/-- Pieces that were put together are the pieces of what they make. -/
theorem segments_joinWith (hne : pieces ≠ []) (h : ∀ piece ∈ pieces, separator ∉ piece) :
    segments separator (joinWith separator pieces) = pieces := by
  induction pieces with
  | nil => exact absurd rfl hne
  | cons piece rest ih =>
    rw [List.forall_mem_cons] at h
    by_cases hrest : rest = []
    · subst hrest
      exact segments_of_not_mem h.1
    · rw [joinWith_cons hrest, segments_append_cons, segments_of_not_mem h.1, ih hrest h.2,
        List.singleton_append]

/-- A character of pieces put together is a separator or stands in a piece. -/
theorem mem_joinWith {c : Char} (h : c ∈ joinWith separator pieces) :
    c = separator ∨ ∃ piece ∈ pieces, c ∈ piece := by
  induction pieces with
  | nil => simp [joinWith] at h
  | cons piece rest ih =>
    by_cases hrest : rest = []
    · subst hrest
      exact .inr ⟨piece, List.mem_cons_self, h⟩
    · rw [joinWith_cons hrest, List.mem_append, List.mem_cons] at h
      rcases h with h | h | h
      · exact .inr ⟨piece, List.mem_cons_self, h⟩
      · exact .inl h
      · refine (ih h).imp_right ?_
        rintro ⟨other, hother, hc⟩
        exact ⟨other, List.mem_cons_of_mem _ hother, hc⟩

/-- A character of a piece stands in the pieces put together. -/
theorem mem_joinWith_of_mem {piece : List Char} {c : Char} (hpiece : piece ∈ pieces)
    (hc : c ∈ piece) : c ∈ joinWith separator pieces := by
  induction pieces with
  | nil => cases hpiece
  | cons first rest ih =>
    by_cases hrest : rest = []
    · subst hrest
      rw [List.mem_singleton] at hpiece
      exact hpiece ▸ hc
    · rw [joinWith_cons hrest, List.mem_append, List.mem_cons]
      rcases List.mem_cons.1 hpiece with rfl | hpiece
      · exact .inl hc
      · exact .inr (.inr (ih hpiece))

/-- Behind the pieces without the empty ones at the end are empty ones alone. -/
theorem exists_blank (pieces : List (List Char)) :
    ∃ blank, pieces = pieces.rdropWhile List.isEmpty ++ blank ∧ ∀ piece ∈ blank, piece = [] :=
  ⟨pieces.rtakeWhile List.isEmpty, List.rdropWhile_append_rtakeWhile.symm, fun _ hpiece =>
    List.isEmpty_iff.1 (List.mem_rtakeWhile_imp hpiece)⟩

/-- Dropping the empty pieces at the end stops at a piece that is not empty. -/
theorem rdropWhile_append (front : List (List Char)) {behind : List (List Char)}
    (h : ∃ piece ∈ behind, piece ≠ []) :
    (front ++ behind).rdropWhile List.isEmpty = front ++ behind.rdropWhile List.isEmpty ∧
      behind.rdropWhile List.isEmpty ≠ [] := by
  have hne : behind.rdropWhile List.isEmpty ≠ [] := by
    obtain ⟨piece, hpiece, hne⟩ := h
    rw [ne_eq, List.rdropWhile_eq_nil_iff]
    exact fun hall => hne (List.isEmpty_iff.1 (hall piece hpiece))
  refine ⟨?_, hne⟩
  rw [List.rdropWhile, ne_eq, List.reverse_eq_nil_iff] at hne
  rw [List.rdropWhile, List.reverse_append, List.dropWhile_append, if_neg (by simpa using hne),
    List.reverse_append, List.reverse_reverse, List.rdropWhile]

end Text

open Text (segments joinWith)

namespace Path

/-- The path holds no character that ends a name, has text, and is not too long. -/
structure Usable (path : Path) : Prop where
  /-- No character ends a name. -/
  no_nul : '\x00' ∉ path.chars
  /-- There is text. -/
  not_empty : path.isEmpty = false
  /-- The text is short enough. -/
  short : path.text.utf8ByteSize < FileTree.pathBound

/-- A path with silent pieces alone behind its front has the components at the front. -/
theorem components_of_trimmedReverse {path : Path}
    (h : trimmedReverse (segments '/' (splitFront path.chars).2.2) = []) :
    path.components = (splitFront path.chars).1 := by
  have hsilent : (segments '/' (splitFront path.chars).2.2).filterMap Component.ofSegment? = [] := by
    rw [List.filterMap_eq_nil_iff]
    intro piece hpiece
    rw [trimmedReverse, List.dropWhile_eq_nil_iff] at h
    exact Option.isNone_iff_eq_none.1 (h piece (List.mem_reverse.2 hpiece))
  rw [components]
  dsimp only
  rw [hsilent, List.append_nil]

/-- The pieces of a path behind its front, cut at the last component: those that are kept for the
parent, silent ones, the component, and more silent ones. Only a path that is a point alone has a
parent without having such pieces. -/
theorem exists_pieces_of_parent? {path above : Path} (h : path.parent? = some above) :
    (path.components = [.current] ∧ above = empty) ∨
      ∃ kept before last behind,
        segments '/' (splitFront path.chars).2.2 = kept ++ before ++ last :: behind ∧
        above = ofChars ((splitFront path.chars).2.1 ++ joinWith '/' kept) ∧
        (kept = [] ∨ ∃ piece ∈ kept, piece ≠ []) ∧
        (∀ piece ∈ before ++ behind, Component.ofSegment? piece = none) ∧
        ∃ component, Component.ofSegment? last = some component := by
  have hcomponents := @components_of_trimmedReverse path
  unfold parent? at h
  generalize splitFront path.chars = split at h hcomponents ⊢
  obtain ⟨front, text, rest⟩ := split
  dsimp only at h hcomponents ⊢
  cases htrimmed : trimmedReverse (segments '/' rest) with
  | nil =>
    rw [htrimmed] at h
    by_cases hfront : front = [.current]
    · rw [if_pos hfront, Option.some.injEq] at h
      exact .inl ⟨(hcomponents htrimmed).trans hfront, h.symm⟩
    · rw [if_neg hfront] at h
      cases h
  | cons last before =>
    -- silent pieces are cut off twice: behind the last component, and behind what is before it
    rw [htrimmed, Option.some.injEq] at h
    have hpieces : (segments '/' rest).rdropWhile (fun piece => (Component.ofSegment? piece).isNone) =
        before.reverse ++ [last] := by
      rw [List.rdropWhile, ← trimmedReverse, htrimmed, List.reverse_cons]
    have hkept : (trimmedReverse before.reverse).reverse =
        before.reverse.rdropWhile fun piece => (Component.ofSegment? piece).isNone := rfl
    rw [hkept] at h
    refine .inr ⟨_, before.reverse.rtakeWhile fun piece => (Component.ofSegment? piece).isNone, last,
      (segments '/' rest).rtakeWhile fun piece => (Component.ofSegment? piece).isNone, ?_, h.symm, ?_,
      ?_, Option.isSome_iff_exists.1 (isSome_of_trimmedReverse_eq_cons htrimmed)⟩
    · rw [List.rdropWhile_append_rtakeWhile, ← List.singleton_append, ← List.append_assoc, ← hpieces,
        List.rdropWhile_append_rtakeWhile]
    · -- the last piece that is kept is not silent, so that it has text
      rw [or_iff_not_imp_left]
      intro hne
      have hproper := List.rdropWhile_last_not _ _ hne
      refine ⟨_, List.getLast_mem hne, fun hblank => hproper ?_⟩
      rw [hblank]
      rfl
    · intro piece hpiece
      rw [← Option.isNone_iff_eq_none]
      rcases List.mem_append.1 hpiece with hpiece | hpiece
      · exact List.mem_rtakeWhile_imp (p := fun piece => (Component.ofSegment? piece).isNone) hpiece
      · exact List.mem_rtakeWhile_imp (p := fun piece => (Component.ofSegment? piece).isNone) hpiece

/-- A path without its parent has more pieces behind it. The parent of a single name has no text, and
the parent of a name at the root is the root. -/
theorem chars_of_parent? {path above : Path} (h : path.parent? = some above) :
    above.isEmpty = true ∨ above.chars = ['/'] ∨
      ∃ more, path.chars = above.chars ++ '/' :: more ∧ ∃ c ∈ more, c ≠ '/' := by
  rcases exists_pieces_of_parent? h with
    ⟨-, rfl⟩ | ⟨kept, before, last, behind, hpieces, rfl, -, -, hlast⟩
  · exact .inl rfl
  · have hin : last ∈ segments '/' (splitFront path.chars).2.2 := by simp [hpieces]
    obtain ⟨c, cs, rfl⟩ : ∃ c cs, last = c :: cs := by
      cases last with
      | nil => simp [Component.ofSegment?] at hlast
      | cons c cs => exact ⟨c, cs, rfl⟩
    have hc : c ≠ '/' := by
      rintro rfl
      exact Text.not_mem_of_mem_segments hin List.mem_cons_self
    rw [chars_ofChars]
    by_cases hnone : kept = []
    · -- nothing is left but the text at the front
      subst hnone
      rw [joinWith, List.append_nil]
      revert hin
      generalize path.chars = whole
      fun_cases splitFront whole with
      | case1 rest => exact fun _ => .inr (.inl rfl)
      | case2 => simp [segments]
      | case3 more =>
        intro hin
        rw [segments, if_pos rfl, List.mem_cons] at hin
        have hmem : c ∈ joinWith '/' (segments '/' more) :=
          Text.mem_joinWith_of_mem (hin.resolve_left (by simp)) List.mem_cons_self
        rw [Text.joinWith_segments] at hmem
        exact .inr (.inr ⟨more, rfl, c, hmem, hc⟩)
      | case4 => exact fun _ => .inl rfl
    · -- the parent ends with the kept pieces, and a separator is between them and the others
      have hrest : (splitFront path.chars).2.2 =
          joinWith '/' kept ++ '/' :: joinWith '/' (before ++ (c :: cs) :: behind) := by
        rw [← Text.joinWith_append hnone (by simp), ← List.append_assoc, ← hpieces,
          Text.joinWith_segments]
      refine .inr (.inr ⟨joinWith '/' (before ++ (c :: cs) :: behind), ?_, c,
        Text.mem_joinWith_of_mem (show c :: cs ∈ before ++ (c :: cs) :: behind by simp)
          List.mem_cons_self, hc⟩)
      rw [List.append_assoc, ← hrest, splitFront_append]

end Path

namespace FileTree

variable {tree other : FileTree} {start place : Location} {pieces : List (List Char)}

/-! ### Following pieces -/

/-- The place that one piece leads to. -/
def nextPlace (place : Location) (piece : List Char) : Except Fault Location :=
  match Component.ofSegment? piece with
  | some .parent => .ok place.dropLast
  | some (.name text) =>
    if maxName < text.utf8ByteSize then .error .nameTooLong else .ok (place ++ [text])
  | _ => .ok place

/-- From a directory, a piece is followed and then the others. -/
theorem follow_cons (h : tree.get? start = some .directory) (piece : List Char)
    (pieces : List (List Char)) :
    tree.follow start (piece :: pieces) =
      (nextPlace start piece >>= fun next => tree.follow next pieces) := by
  rw [follow, h, nextPlace]
  -- a point and an empty piece stay in the directory
  cases Component.ofSegment? piece with
  | none => rfl
  | some component =>
    cases component with
    | root => rfl
    | current => rfl
    | parent => rfl
    | name text =>
      by_cases hlong : maxName < text.utf8ByteSize
      · simp [hlong]
      · simp [hlong]

/-- What it takes to follow a piece and then some more: a directory to start from, and a place that
the piece leads to. -/
theorem follow_cons_eq_ok_iff {piece : List Char} :
    tree.follow start (piece :: pieces) = .ok place ↔
      tree.get? start = some .directory ∧
        ∃ next, nextPlace start piece = .ok next ∧ tree.follow next pieces = .ok place := by
  cases hstart : tree.get? start with
  | none => simp [follow, hstart]
  | some entry =>
    cases entry with
    | file content => simp [follow, hstart]
    | directory => simp [follow_cons hstart]

/-- One piece leads on from a directory. -/
theorem follow_singleton (h : tree.get? start = some .directory) (piece : List Char) :
    tree.follow start [piece] = nextPlace start piece := by
  rw [follow_cons h]
  cases nextPlace start piece <;> rfl

/-- A path in two parts is followed part by part. -/
theorem follow_append (front behind : List (List Char)) :
    tree.follow start (front ++ behind) =
      (tree.follow start front >>= fun between => tree.follow between behind) := by
  induction front generalizing start with
  | nil => rfl
  | cons piece front ih =>
    -- a piece is followed from a directory only, whatever is behind it
    cases hstart : tree.get? start with
    | none => simp [follow, hstart]
    | some entry =>
      cases entry with
      | file content => simp [follow, hstart]
      | directory =>
        rw [List.cons_append, follow_cons hstart, follow_cons hstart]
        cases nextPlace start piece with
        | error fault => rfl
        | ok next => exact ih

/-- What it takes to follow a path in two parts. -/
theorem follow_append_eq_ok_iff (front behind : List (List Char)) :
    tree.follow start (front ++ behind) = .ok place ↔
      ∃ between, tree.follow start front = .ok between ∧ tree.follow between behind = .ok place := by
  rw [follow_append, bind_eq_ok_iff]

/-- A path with pieces leads on from a directory. -/
theorem directory_of_follow (hne : pieces ≠ []) (h : tree.follow start pieces = .ok place) :
    tree.get? start = some .directory := by
  cases pieces with
  | nil => exact absurd rfl hne
  | cons piece pieces => exact (follow_cons_eq_ok_iff.1 h).1

/-- Empty pieces lead nowhere else. -/
theorem eq_of_follow_blank (hblank : ∀ piece ∈ pieces, piece = [])
    (h : tree.follow start pieces = .ok place) : place = start := by
  induction pieces generalizing start with
  | nil =>
    cases h
    rfl
  | cons piece pieces ih =>
    rw [List.forall_mem_cons] at hblank
    obtain ⟨rfl, hrest⟩ := hblank
    obtain ⟨-, next, hnext, hfollow⟩ := follow_cons_eq_ok_iff.1 h
    cases hnext
    exact ih hrest hfollow

/-- Empty pieces can be followed from a directory. -/
theorem follow_blank (hblank : ∀ piece ∈ pieces, piece = [])
    (h : tree.get? start = some .directory) : tree.follow start pieces = .ok start := by
  induction pieces with
  | nil => rfl
  | cons piece pieces ih =>
    rw [List.forall_mem_cons] at hblank
    obtain ⟨rfl, hrest⟩ := hblank
    exact follow_cons_eq_ok_iff.2 ⟨h, start, rfl, ih hrest⟩

/-- A path leads to the same place in a tree with more directories. -/
theorem follow_mono (hdirectories : ∀ place, tree.get? place = some .directory →
      other.get? place = some .directory)
    (h : tree.follow start pieces = .ok place) : other.follow start pieces = .ok place := by
  induction pieces generalizing start with
  | nil => exact h
  | cons piece pieces ih =>
    obtain ⟨hdirectory, next, hnext, hfollow⟩ := follow_cons_eq_ok_iff.1 h
    exact follow_cons_eq_ok_iff.2 ⟨hdirectories _ hdirectory, next, hnext, ih hfollow⟩

/-! ### Locating paths -/

/-- The place that a path is followed from. -/
def startOf (tree : FileTree) (path : Path) : Location :=
  if path.isAbsolute then [] else tree.workingDirectory

/-- What it takes to find the place that a path leads to by some pieces. -/
theorem locatePieces_eq_ok_iff {path : Path} :
    tree.locatePieces path pieces = .ok place ↔
      path.Usable ∧ tree.follow (tree.startOf path) pieces = .ok place := by
  rw [locatePieces, ite_error_eq_ok_iff, ite_error_eq_ok_iff, ite_error_eq_ok_iff, startOf,
    Nat.not_le, Bool.not_eq_true]
  constructor
  · rintro ⟨hnul, hempty, hshort, hfollow⟩
    exact ⟨⟨hnul, hempty, hshort⟩, hfollow⟩
  · rintro ⟨husable, hfollow⟩
    exact ⟨husable.no_nul, husable.not_empty, husable.short, hfollow⟩

/-- What it takes for a path to lead to a directory. -/
theorem hasDirectory_iff {path : Path} :
    tree.hasDirectory path = true ↔
      ∃ place, tree.locate path = .ok place ∧ tree.get? place = some .directory := by
  rw [hasDirectory, find]
  cases tree.locate path with
  | error fault => simp
  | ok place =>
    simp only [ok_bind, Except.ok.injEq, exists_eq_left']
    cases tree.get? place with
    | none => simp
    | some entry => cases entry <;> simp [pure, Except.pure]

end FileTree

end PublicAssembly
