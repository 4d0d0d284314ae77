/-!
# Segments

Cutting characters at a separator, and putting the pieces together again. Nothing is lost
(`joinWith_segments`), and no piece holds the separator (`not_mem_of_mem_segments`).
-/

namespace PublicAssembly.Text

/-- The pieces between the separators, of which there is one more than separators. -/
def segments (separator : Char) : List Char → List (List Char)
  | [] => [[]]
  | c :: cs =>
    if c = separator then [] :: segments separator cs
    else
      match segments separator cs with
      | [] => [[c]]
      | piece :: pieces => (c :: piece) :: pieces

/-- The pieces with the separator between each two. -/
def joinWith (separator : Char) : List (List Char) → List Char
  | [] => []
  | [piece] => piece
  | piece :: pieces => piece ++ separator :: joinWith separator pieces

/-- There is always a piece. -/
theorem segments_ne_nil (separator : Char) (cs : List Char) : segments separator cs ≠ [] := by
  cases cs with
  | nil => simp [segments]
  | cons c cs =>
    rw [segments]
    split
    · simp
    · split <;> simp

/-- A piece in front of some others. -/
theorem joinWith_cons {pieces : List (List Char)} (h : pieces ≠ []) (separator : Char)
    (piece : List Char) :
    joinWith separator (piece :: pieces) = piece ++ separator :: joinWith separator pieces := by
  cases pieces with
  | nil => exact absurd rfl h
  | cons => rfl

/-- The pieces put together are the characters. -/
theorem joinWith_segments (separator : Char) (cs : List Char) :
    joinWith separator (segments separator cs) = cs := by
  induction cs with
  | nil => rfl
  | cons c cs ih =>
    -- a separator begins a new piece, and any other character goes on with the first one
    rw [segments]
    split
    · next h =>
      rw [joinWith_cons (segments_ne_nil separator cs), ih, h]
      rfl
    · split
      · next h => exact absurd h (segments_ne_nil separator cs)
      · next piece pieces h =>
        rw [h] at ih
        rw [← ih]
        cases pieces with
        | nil => rfl
        | cons => rfl

/-- The length of some pieces, each with a separator. -/
def extent : List (List Char) → Nat
  | [] => 0
  | piece :: pieces => piece.length + 1 + extent pieces

@[simp]
theorem extent_cons (piece : List Char) (pieces : List (List Char)) :
    extent (piece :: pieces) = piece.length + 1 + extent pieces := rfl

@[simp]
theorem extent_append (ps qs : List (List Char)) : extent (ps ++ qs) = extent ps + extent qs := by
  induction ps with
  | nil => simp [extent]
  | cons piece ps ih =>
    rw [List.cons_append, extent_cons, ih, extent_cons]
    omega

@[simp]
theorem extent_reverse (pieces : List (List Char)) : extent pieces.reverse = extent pieces := by
  induction pieces with
  | nil => rfl
  | cons piece pieces ih =>
    simp only [List.reverse_cons, extent_append, extent_cons, ih]
    simp [extent]
    omega

/-- There is one separator less than there are pieces. -/
theorem length_joinWith (separator : Char) (pieces : List (List Char)) :
    (joinWith separator pieces).length = extent pieces - 1 := by
  induction pieces with
  | nil => rfl
  | cons piece pieces ih =>
    cases pieces with
    | nil => simp [joinWith, extent]
    | cons next pieces =>
      rw [joinWith_cons (by simp), List.length_append, List.length_cons, ih]
      simp only [extent_cons]
      omega

/-- No piece holds the separator. -/
theorem not_mem_of_mem_segments {separator : Char} {cs piece : List Char}
    (h : piece ∈ segments separator cs) : separator ∉ piece := by
  induction cs generalizing piece with
  | nil => simp_all [segments]
  | cons c cs ih =>
    rw [segments] at h
    split at h
    · rcases List.mem_cons.1 h with rfl | h
      · simp
      · exact ih h
    · next hc =>
      split at h
      · next hn => exact absurd hn (segments_ne_nil separator cs)
      · next first pieces hs =>
        -- the first piece goes on with a character that is not the separator
        rcases List.mem_cons.1 h with rfl | h
        · have := @ih first (by simp [hs])
          simp [this, Ne.symm hc]
        · exact ih (by simp [hs, h])

end PublicAssembly.Text
