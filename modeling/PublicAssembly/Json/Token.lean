import PublicAssembly.Json.Basic

/-!
# JSON tokens

A JSON text is a sequence of tokens with blanks between them. `Token.readAll` cuts a text into its
tokens; a token that is read takes at least one character (`length_lt_of_read?`), so cutting comes to
an end.
-/

namespace PublicAssembly.Json

open PublicAssembly.Text (Position)

/-- A token of a JSON text. -/
inductive Token where
  | openArray
  | closeArray
  | openObject
  | closeObject
  | comma
  | colon
  | null
  | bool (value : Bool)
  | integer (value : Int)
  | otherNumber
  | string (text : Option String)
  deriving DecidableEq, Repr

/-- The character may stand between two tokens. -/
def isBlank (c : Char) : Bool :=
  c == ' ' || c == '\n' || c == '\t' || c == '\r'

/-! ### Numbers -/

/-- The character can occur in a number. -/
def isNumeric (c : Char) : Bool :=
  c.isDigit || c == '-' || c == '+' || c == '.' || c == 'e' || c == 'E'

/-- The number that decimal digits stand for. -/
def digitsValue (digits : List Char) : Nat :=
  digits.foldl (fun n c => 10 * n + (c.toNat - '0'.toNat)) 0

/-- The characters are at least one digit, and a leading zero stands alone. -/
def isWhole (cs : List Char) : Bool :=
  match cs with
  | [] => false
  | '0' :: rest => rest.isEmpty
  | _ => cs.all Char.isDigit

/-- The characters are an exponent mark, perhaps a sign, and at least one digit; or there are
none. -/
def isExponent : List Char → Bool
  | [] => true
  | mark :: rest =>
    let digits := match rest with
      | '+' :: digits => digits
      | '-' :: digits => digits
      | digits => digits
    (mark == 'e' || mark == 'E') && !digits.isEmpty && digits.all Char.isDigit

/-- The characters are perhaps a point with at least one digit, and perhaps an exponent. -/
def isFractionTail : List Char → Bool
  | '.' :: rest => !(rest.takeWhile Char.isDigit).isEmpty && isExponent (rest.dropWhile Char.isDigit)
  | rest => isExponent rest

/-- The characters are a number without a sign. -/
def isUnsigned (cs : List Char) : Bool :=
  isWhole (cs.takeWhile Char.isDigit) && isFractionTail (cs.dropWhile Char.isDigit)

/-- The token of the characters of a number. -/
def Token.ofNumber? (cs : List Char) : Option Token :=
  match cs with
  | '-' :: rest =>
    if isWhole rest ∧ 0 < digitsValue rest then some (.integer (-digitsValue rest))
    else if isUnsigned rest then some .otherNumber
    else none
  | _ =>
    if isWhole cs then some (.integer (digitsValue cs))
    else if isUnsigned cs then some .otherNumber
    else none

/-! ### Strings -/

/-- The value of a hexadecimal digit. -/
def hexValue? (c : Char) : Option Nat :=
  if c.isDigit then some (c.toNat - '0'.toNat)
  else if 'a' ≤ c ∧ c ≤ 'f' then some (c.toNat - 'a'.toNat + 10)
  else if 'A' ≤ c ∧ c ≤ 'F' then some (c.toNat - 'A'.toNat + 10)
  else none

/-- The value of four hexadecimal digits. -/
def hexUnit? (a b c d : Char) : Option Nat := do
  let a ← hexValue? a
  let b ← hexValue? b
  let c ← hexValue? c
  let d ← hexValue? d
  return ((a * 16 + b) * 16 + c) * 16 + d

/-- The code point that an escape of one letter stands for. -/
def shortEscape? : Char → Option Nat
  | '"' => some 0x22
  | '\\' => some 0x5C
  | '/' => some 0x2F
  | 'b' => some 0x08
  | 'f' => some 0x0C
  | 'n' => some 0x0A
  | 'r' => some 0x0D
  | 't' => some 0x09
  | _ => none

/-- The code points up to the closing quote, and the characters behind the quote. An escape may give
half of a surrogate pair. -/
def readString? : List Char → Option (List Nat × List Char)
  | [] => none
  | '"' :: rest => some ([], rest)
  | '\\' :: 'u' :: a :: b :: c :: d :: rest => do
    let unit ← hexUnit? a b c d
    let (points, rest) ← readString? rest
    return (unit :: points, rest)
  | '\\' :: letter :: rest => do
    let point ← shortEscape? letter
    let (points, rest) ← readString? rest
    return (point :: points, rest)
  | c :: rest =>
    if c.toNat < 0x20 || c == '\\' then none
    else do
      let (points, rest) ← readString? rest
      return (c.toNat :: points, rest)

/-- The number is the first half of a surrogate pair. -/
def isHighSurrogate (point : Nat) : Bool :=
  0xD800 ≤ point && point < 0xDC00

/-- The number is the second half of a surrogate pair. -/
def isLowSurrogate (point : Nat) : Bool :=
  0xDC00 ≤ point && point < 0xE000

/-- The characters of some code points, with surrogate pairs joined; `none` if half a pair is left
over. -/
def joinSurrogates? : List Nat → Option (List Char)
  | [] => some []
  | high :: low :: rest =>
    if isHighSurrogate high && isLowSurrogate low then
      (joinSurrogates? rest).map
        (Char.ofNat (0x10000 + (high - 0xD800) * 0x400 + (low - 0xDC00)) :: ·)
    else if isHighSurrogate high || isLowSurrogate high then none
    else (joinSurrogates? (low :: rest)).map (Char.ofNat high :: ·)
  | [point] =>
    if isHighSurrogate point || isLowSurrogate point then none else some [Char.ofNat point]

/-! ### Tokens -/

/-- The token at the front of some characters, and the characters behind it. -/
def Token.read? : List Char → Option (Token × List Char)
  | '[' :: rest => some (.openArray, rest)
  | ']' :: rest => some (.closeArray, rest)
  | '\x7b' :: rest => some (.openObject, rest)
  | '\x7d' :: rest => some (.closeObject, rest)
  | ',' :: rest => some (.comma, rest)
  | ':' :: rest => some (.colon, rest)
  | 'n' :: 'u' :: 'l' :: 'l' :: rest => some (.null, rest)
  | 't' :: 'r' :: 'u' :: 'e' :: rest => some (.bool true, rest)
  | 'f' :: 'a' :: 'l' :: 's' :: 'e' :: rest => some (.bool false, rest)
  | '"' :: rest => do
    let (points, rest) ← readString? rest
    return (.string ((joinSurrogates? points).map String.ofList), rest)
  | c :: rest =>
    if isNumeric c then do
      let token ← ofNumber? (c :: rest.takeWhile isNumeric)
      return (token, rest.dropWhile isNumeric)
    else none
  | [] => none

/-- Behind a code point the rest of a string is read. -/
theorem exists_readString?_of_point {point : Nat} {cs rest : List Char} {points : List Nat}
    (h : (do
      let (points, rest) ← readString? cs
      return (point :: points, rest)) = some (points, rest)) :
    ∃ others, readString? cs = some (others, rest) := by
  simp only [Option.bind_eq_bind, Option.pure_def, Option.bind_eq_some_iff] at h
  obtain ⟨⟨others, behind⟩, hread, heq⟩ := h
  cases heq
  exact ⟨others, hread⟩

/-- A string takes at least its closing quote. -/
theorem length_lt_of_readString? {cs : List Char} {points : List Nat} {rest : List Char}
    (h : readString? cs = some (points, rest)) : rest.length < cs.length := by
  fun_induction readString? cs generalizing points rest with
  | case1 => simp at h
  | case2 => simp_all
  | case3 a b c d cs ih =>
    obtain ⟨unit, -, h⟩ := Option.bind_eq_some_iff.1 h
    obtain ⟨others, hread⟩ := exists_readString?_of_point h
    have hlt := ih hread
    simp only [List.length_cons]
    omega
  | case4 letter cs _ ih =>
    obtain ⟨point, -, h⟩ := Option.bind_eq_some_iff.1 h
    obtain ⟨others, hread⟩ := exists_readString?_of_point h
    have hlt := ih hread
    simp only [List.length_cons]
    omega
  | case5 => simp at h
  | case6 c cs _ _ _ _ ih =>
    obtain ⟨others, hread⟩ := exists_readString?_of_point h
    have hlt := ih hread
    simp only [List.length_cons]
    omega

/-- A token takes at least one character. -/
theorem length_lt_of_read? {cs : List Char} {token : Token} {rest : List Char}
    (h : Token.read? cs = some (token, rest)) : rest.length < cs.length := by
  unfold Token.read? at h
  -- of the tokens that are not a sign or a word, a string ends with a quote and a number takes its
  -- first character
  split at h <;> try simp only [Option.some.injEq, Prod.mk.injEq] at h
  all_goals try (obtain ⟨_, rfl⟩ := h; simp only [List.length_cons]; omega)
  · next cs' =>
    simp only [Option.bind_eq_bind, Option.pure_def, Option.bind_eq_some_iff] at h
    obtain ⟨⟨ps, rs⟩, hr, he⟩ := h
    simp only [Option.some.injEq, Prod.mk.injEq] at he
    obtain ⟨_, rfl⟩ := he
    have := length_lt_of_readString? hr
    simp only [List.length_cons]
    omega
  · next c cs' _ _ _ _ _ _ _ _ _ _ =>
    split at h
    · simp only [Option.bind_eq_bind, Option.pure_def, Option.bind_eq_some_iff] at h
      obtain ⟨t, _, he⟩ := h
      simp only [Option.some.injEq, Prod.mk.injEq] at he
      have := (List.dropWhile_sublist isNumeric (l := cs')).length_le
      simp only [List.length_cons]
      rw [← he.2]
      omega
    · cases h
  · cases h

/-- The tokens of a text, each with the characters from its beginning to the end of the text. The
error is the characters left where no token begins. -/
def Token.readAll (cs : List Char) : Except (List Char) (List (Token × List Char)) :=
  match cs with
  | [] => .ok []
  | c :: rest =>
    if isBlank c then readAll rest
    else
      match _h : Token.read? (c :: rest) with
      | none => .error (c :: rest)
      | some (token, behind) => do
        let tokens ← readAll behind
        return (token, c :: rest) :: tokens
termination_by cs.length
decreasing_by
  · simp
  · exact length_lt_of_read? _h

end PublicAssembly.Json
