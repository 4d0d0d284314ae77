import PublicAssembly.Text.Segments

/-!
# Paths

A path is text whose components are separated by slashes. Empty components and components that are
a single point say nothing and are passed over, apart from a point at the front. Two paths name the
same place if their components are equal, whatever their texts.

A component of names keeps the text of a path as it was given; `parent?` cuts the text behind the
last component but one.
-/

namespace PublicAssembly

open Text (segments joinWith extent extent_append extent_cons extent_reverse length_joinWith
  joinWith_segments)

/-- A component of a path. -/
inductive Component where
  /-- The root at the front of an absolute path. -/
  | root
  /-- A point at the front. -/
  | current
  /-- Two points: the directory above. -/
  | parent
  /-- A name. -/
  | name (text : String)
  deriving DecidableEq, Repr

namespace Component

/-- The place of the kind of a component in the order of components. -/
def rank : Component → Nat
  | root => 0
  | current => 1
  | parent => 2
  | name _ => 3

/-- Components are in order of their kinds, and names in order of their characters. -/
def le : Component → Component → Bool
  | name a, name b => decide (a ≤ b)
  | a, b => decide (a.rank ≤ b.rank)

/-- The component that a piece between two slashes stands for, if it says anything. -/
def ofSegment? : List Char → Option Component
  | [] => none
  | ['.'] => none
  | ['.', '.'] => some parent
  | piece => some (name (String.ofList piece))

end Component

/-- A path as it is written. -/
structure Path where
  /-- The text. -/
  text : String
  deriving DecidableEq, Repr

namespace Path

/-- The path without a component. -/
def empty : Path :=
  ⟨""⟩

/-- The path of some characters. -/
def ofChars (cs : List Char) : Path :=
  ⟨String.ofList cs⟩

/-- The characters of a path. -/
def chars (path : Path) : List Char :=
  path.text.toList

@[simp]
theorem chars_ofChars (cs : List Char) : (ofChars cs).chars = cs :=
  String.toList_ofList

/-- The path has no text. -/
def isEmpty (path : Path) : Bool :=
  path.chars.isEmpty

/-- The path begins at the root. -/
def isAbsolute (path : Path) : Bool :=
  path.chars.head? == some '/'

/-- The component at the front that the separators do not tell, with its text, and the rest of the
characters: the root, or a point that stands for the current directory. -/
def splitFront : List Char → List Component × List Char × List Char
  | '/' :: rest => ([.root], ['/'], rest)
  | ['.'] => ([.current], ['.'], [])
  | '.' :: '/' :: rest => ([.current], ['.'], '/' :: rest)
  | cs => ([], [], cs)

/-- The text at the front and the rest are the whole text. -/
theorem splitFront_append (cs : List Char) : (splitFront cs).2.1 ++ (splitFront cs).2.2 = cs := by
  unfold splitFront
  split <;> rfl

/-- The components, first to last. -/
def components (path : Path) : List Component :=
  let (front, _, rest) := splitFront path.chars
  front ++ (segments '/' rest).filterMap Component.ofSegment?

/-- Two paths with the same components name the same place. -/
def sameAs (a b : Path) : Bool :=
  a.components == b.components

/-- Lists of components are in order of the first components that differ. -/
def componentsLe : List Component → List Component → Bool
  | [], _ => true
  | _ :: _, [] => false
  | a :: as, b :: bs => if a = b then componentsLe as bs else a.le b

/-- Paths are in order of their components. -/
def le (a b : Path) : Bool :=
  componentsLe a.components b.components

/-- The last component, if it is a name. -/
def fileName? (path : Path) : Option String :=
  match path.components.getLast? with
  | some (.name text) => some text
  | _ => none

/-- The pieces without those at the end that are no components, last piece first. -/
def trimmedReverse (pieces : List (List Char)) : List (List Char) :=
  pieces.reverse.dropWhile fun piece => (Component.ofSegment? piece).isNone

/-- The path without its last component. The root and the path without a component have none. -/
def parent? (path : Path) : Option Path :=
  let (front, text, rest) := splitFront path.chars
  match trimmedReverse (segments '/' rest) with
  | _ :: before =>
    some (ofChars (text ++ joinWith '/' (trimmedReverse before.reverse).reverse))
  | [] => if front = [.current] then some empty else none

/-- The other path seen from this one: the other one itself if it is absolute. -/
def join (path other : Path) : Path :=
  if other.isAbsolute || path.isEmpty then other
  else if path.chars.getLast? = some '/' then ofChars (path.chars ++ other.chars)
  else ofChars (path.chars ++ '/' :: other.chars)

/-! ### Stem and extension -/

/-- A name cut at its last point. A point at the front is part of the stem. -/
def splitExtension (name : List Char) : List Char × Option (List Char) :=
  match name.reverse.dropWhile (· != '.') with
  | _ :: c :: before =>
    ((c :: before).reverse, some (name.reverse.takeWhile (· != '.')).reverse)
  | _ => (name, none)

/-- The file name behind its last point. -/
def extension? (path : Path) : Option String :=
  path.fileName?.bind fun name => (splitExtension name.toList).2.map String.ofList

/-- The parts of a name with a point between them are the name. -/
theorem splitExtension_append (name : List Char) :
    (splitExtension name).1 ++ ((splitExtension name).2.map ('.' :: ·)).getD [] = name := by
  unfold splitExtension
  split
  · next dot c before h =>
    -- the character at which the name was cut is the first point from behind
    have point : dot = '.' := by
      have := List.head?_dropWhile_not (· != '.') name.reverse
      rw [h] at this
      simpa using this
    have whole := List.takeWhile_append_dropWhile (p := (· != '.')) (l := name.reverse)
    rw [h, point] at whole
    simp only [Option.map_some, Option.getD_some]
    rw [← List.reverse_inj]
    simpa using whole
  · simp

/-! ### Ancestors -/

/-- The trimmed pieces are no longer than the pieces. -/
theorem extent_trimmedReverse_le (pieces : List (List Char)) :
    extent (trimmedReverse pieces) ≤ extent pieces := by
  have whole := congrArg extent (List.takeWhile_append_dropWhile
    (p := fun piece => (Component.ofSegment? piece).isNone) (l := pieces.reverse))
  simp only [extent_append, extent_reverse] at whole
  simp only [trimmedReverse]
  omega

/-- The last of the trimmed pieces is a component. -/
theorem isSome_of_trimmedReverse_eq_cons {pieces before : List (List Char)} {piece : List Char}
    (h : trimmedReverse pieces = piece :: before) : (Component.ofSegment? piece).isSome := by
  have := List.head?_dropWhile_not (fun piece => (Component.ofSegment? piece).isNone)
    pieces.reverse
  rw [trimmedReverse] at h
  rw [h] at this
  simpa using this

/-- A path is longer than its parent. -/
theorem length_parent?_lt {path above : Path} (h : path.parent? = some above) :
    above.chars.length < path.chars.length := by
  have whole := splitFront_append path.chars
  unfold parent? at h
  generalize hs : splitFront path.chars = s at h whole
  obtain ⟨front, text, rest⟩ := s
  simp only at h whole
  rw [← whole]
  split at h
  · next piece before hb =>
    cases h
    -- the parent ends before the last piece with a name, so that at least its characters are
    -- missing
    have inner := length_joinWith '/' (segments '/' rest)
    rw [joinWith_segments] at inner
    have cut := extent_trimmedReverse_le (segments '/' rest)
    have again := extent_trimmedReverse_le before.reverse
    have some := isSome_of_trimmedReverse_eq_cons hb
    have : 0 < piece.length := by
      cases piece with
      | nil => simp [Component.ofSegment?] at some
      | cons => simp
    rw [hb, extent_cons] at cut
    rw [extent_reverse] at again
    simp only [chars_ofChars, List.length_append, length_joinWith, extent_reverse]
    omega
  · split at h
    · next hf =>
      cases h
      -- nothing but the text at the front goes, and it is not empty
      have : text ≠ [] := by
        rintro rfl
        unfold splitFront at hs
        split at hs <;> simp_all
      have : 0 < text.length := List.length_pos_iff.2 this
      simp [empty, chars]
      omega
    · cases h

/-- The path itself and the parents above it, innermost first. -/
def ancestors (path : Path) : List Path :=
  match _h : path.parent? with
  | some above => path :: above.ancestors
  | none => [path]
termination_by path.chars.length
decreasing_by exact length_parent?_lt _h

end Path

end PublicAssembly
