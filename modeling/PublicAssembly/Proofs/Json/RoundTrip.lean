import Mathlib.Data.List.Basic
import PublicAssembly.Json.Reader
import PublicAssembly.Json.Writer

/-!
# Written values are read back

The written form of a value is read as the value. Reading goes on from a state of the reader with
the characters that are left, so the claim about a value is one about any state in which a value may
come and about any characters behind the value (`Reads.write`): whoever reads these in the state
behind the value reads the value and these before it.

A number goes on as long as its characters do. So what is behind a value must not begin like a part
of a number, and nothing that is ever put behind one does (`Ends`).

## Main definitions

* `Json.Reads`: what is read of some characters, going on from a state.

## Main statements

* `readString?_escaped`, `joinSurrogates?_toNat`: the characters of a string are read back;
* `ofNumber?_toDigits`: the digits of a number are read back;
* `Json.read_write`: the written form of a value is read as the value.
-/

namespace PublicAssembly.Json

/-! ### Strings -/

/-- A hexadecimal digit has its value. -/
theorem hexValue?_digitChar {n : Nat} (h : n < 16) : hexValue? (Nat.digitChar n) = some n := by
  have hall : ∀ n : Fin 16, hexValue? (Nat.digitChar n) = some n.val := by decide
  exact hall ⟨n, h⟩

/-- A character of a string is read back from what stands for it. -/
theorem readString?_escapedChar (c : Char) (rest : List Char) :
    readString? (escapedChar c ++ rest) =
      (readString? rest).map fun read => (c.toNat :: read.1, read.2) := by
  have hbind (point : Nat) :
      ((readString? rest).bind fun read => some (point :: read.1, read.2)) =
        (readString? rest).map fun read => (point :: read.1, read.2) := by
    cases readString? rest <;> rfl
  unfold escapedChar
  -- the characters with a short escape, then the other control characters, then all others
  iterate 7
    split
    · next hc =>
      obtain rfl := eq_of_beq hc
      exact hbind _
  split
  · next hc =>
    have hunit : hexUnit? '0' '0' (Nat.digitChar (c.toNat / 16)) (Nat.digitChar (c.toNat % 16)) =
        some c.toNat := by
      rw [hexUnit?, hexValue?_digitChar (by omega), hexValue?_digitChar (by omega)]
      have hzero : hexValue? '0' = some 0 := by decide
      simp only [hzero, Option.bind_eq_bind, Option.bind_some, Option.pure_def, Option.some.injEq]
      omega
    simp only [List.cons_append, List.nil_append, readString?, hunit]
    exact hbind _
  · next hquote hbackslash _ _ _ _ _ hprintable =>
    simp only [beq_iff_eq] at hquote hbackslash
    rw [List.cons_append, List.nil_append, readString?, if_neg]
    · exact hbind _
    · simp [hprintable, hbackslash]
    · exact hquote
    · exact fun _ _ _ _ _ hc _ => hbackslash hc
    · exact fun _ _ hc _ => hbackslash hc

/-- The characters of a string are read back, up to the closing quote. -/
theorem readString?_escaped (cs rest : List Char) :
    readString? (cs.flatMap escapedChar ++ '"' :: rest) = some (cs.map Char.toNat, rest) := by
  induction cs with
  | nil => rfl
  | cons c cs ih =>
    rw [List.flatMap_cons, List.append_assoc, readString?_escapedChar, ih]
    rfl

/-- No character is half of a surrogate pair. -/
theorem not_surrogate (c : Char) :
    isHighSurrogate c.toNat = false ∧ isLowSurrogate c.toNat = false := by
  have hvalid : c.toNat < 0xD800 ∨ 0xDFFF < c.toNat ∧ c.toNat < 0x110000 := c.valid
  simp only [isHighSurrogate, isLowSurrogate, Bool.and_eq_false_iff, decide_eq_false_iff_not]
  omega

/-- Characters need no joining. -/
theorem joinSurrogates?_toNat (cs : List Char) : joinSurrogates? (cs.map Char.toNat) = some cs := by
  induction cs with
  | nil => rfl
  | cons c cs ih =>
    obtain ⟨hhigh, hlow⟩ := not_surrogate c
    cases cs with
    | nil => simp [joinSurrogates?, hhigh, hlow, Char.ofNat_toNat]
    | cons d cs =>
      simp only [List.map_cons] at ih ⊢
      simp [joinSurrogates?, hhigh, hlow, ih, Char.ofNat_toNat]

/-- A string is read back. -/
theorem read?_writeString (text : Option String) (rest : List Char) :
    Token.read? (writeString text ++ rest) = some (.string text, rest) := by
  cases text with
  | none => rfl
  | some text =>
    simp only [writeString, List.cons_append, List.append_assoc, Token.read?]
    rw [readString?_escaped]
    simp [joinSurrogates?_toNat]

/-! ### Numbers -/

/-- The characters do not go on with a part of a number. -/
def Ends (cs : List Char) : Prop :=
  ∀ c ∈ cs.head?, isNumeric c = false

/-- The digits of a number that is not zero do not begin with a zero. -/
theorem head?_toDigits_ne {n : Nat} (hn : 0 < n) : (Nat.toDigits 10 n).head? ≠ some '0' := by
  induction n using Nat.strongRecOn with
  | _ n ih =>
    rw [Nat.toDigits_eq_if (by decide)]
    split
    · simpa [Nat.digitChar_eq_zero] using Nat.ne_of_gt hn
    · have hfront := ih (n / 10) (by omega) (by omega)
      obtain ⟨c, rest, hdigits⟩ := List.exists_cons_of_ne_nil (Nat.toDigits_ne_nil (n := n / 10)
        (b := 10))
      rwa [hdigits] at hfront ⊢

/-- The digits of a number are a whole number. -/
theorem isWhole_toDigits (n : Nat) : isWhole (Nat.toDigits 10 n) = true := by
  have hdigits : (Nat.toDigits 10 n).all Char.isDigit = true :=
    List.all_eq_true.2 fun c hc => Nat.isDigit_of_mem_toDigits (by decide) (by decide) hc
  rcases Nat.eq_zero_or_pos n with rfl | hn
  · decide
  · -- no zero leads, apart from the number zero
    have hhead := head?_toDigits_ne hn
    unfold isWhole
    split
    · next hnil => exact absurd hnil Nat.toDigits_ne_nil
    · next rest hzero =>
      rw [hzero] at hhead
      exact absurd rfl hhead
    · exact hdigits

/-- The digits of a number have its value. -/
theorem digitsValue_toDigits (n : Nat) : digitsValue (Nat.toDigits 10 n) = n := by
  rw [digitsValue, ← Nat.ofDigitChars_eq_foldl, Nat.ofDigitChars_ten_toDigits]

/-- Some characters of a number, and then none, are read as the token of the number. -/
theorem read?_number {c : Char} {rest behind : List Char} {token : Token}
    (hnumeric : ∀ d ∈ c :: rest, isNumeric d = true) (hends : Ends behind)
    (htoken : Token.ofNumber? (c :: rest) = some token) :
    Token.read? (c :: rest ++ behind) = some (token, behind) := by
  rw [List.forall_mem_cons] at hnumeric
  obtain ⟨hc, hrest⟩ := hnumeric
  have htake : (rest ++ behind).takeWhile isNumeric = rest := by
    rw [List.takeWhile_append_of_pos hrest]
    cases behind with
    | nil => simp
    | cons d behind => simp [hends d rfl]
  have hdrop : (rest ++ behind).dropWhile isNumeric = behind := by
    rw [List.dropWhile_append_of_pos hrest]
    cases behind with
    | nil => rfl
    | cons d behind => simp [hends d rfl]
  have hfirst (d : Char) (hd : isNumeric d = false) : c ≠ d := by
    rintro rfl
    cases hd.symm.trans hc
  rw [List.cons_append]
  unfold Token.read?
  split
  case h_11 heq =>
    cases heq
    rw [if_pos hc, htake, hdrop, htoken]
    rfl
  case h_12 heq => cases heq
  -- every other token begins with a character that no number has
  all_goals
    next heq =>
      exact absurd (List.cons.inj heq).1 (hfirst _ (by decide))

/-- The digits of a number are read as the number. -/
theorem read?_toDigits (n : Nat) {behind : List Char} (hends : Ends behind) :
    Token.read? (Nat.toDigits 10 n ++ behind) = some (.integer n, behind) := by
  have hdigit : ∀ c ∈ Nat.toDigits 10 n, c.isDigit = true :=
    fun c hc => Nat.isDigit_of_mem_toDigits (by decide) (by decide) hc
  have hwhole := isWhole_toDigits n
  have hvalue := digitsValue_toDigits n
  obtain ⟨c, rest, hdigits⟩ := List.exists_cons_of_ne_nil (Nat.toDigits_ne_nil (n := n) (b := 10))
  rw [hdigits] at hdigit hwhole hvalue ⊢
  refine read?_number (fun d hd => by simp [isNumeric, hdigit d hd]) hends ?_
  -- the first character is a digit, and so it is no sign
  have hsign : c ≠ '-' := by
    rintro rfl
    cases hdigit '-' List.mem_cons_self
  rw [Token.ofNumber?, if_pos hwhole, hvalue]
  exact fun _ h => hsign (List.cons.inj h).1

/-- A minus and the digits of a number are read as the number below zero. -/
theorem read?_minus_toDigits (n : Nat) {behind : List Char} (hends : Ends behind) :
    Token.read? ('-' :: (Nat.toDigits 10 (n + 1) ++ behind)) =
      some (.integer (Int.negSucc n), behind) := by
  have hdigit : ∀ c ∈ Nat.toDigits 10 (n + 1), c.isDigit = true :=
    fun c hc => Nat.isDigit_of_mem_toDigits (by decide) (by decide) hc
  refine read?_number (c := '-') (List.forall_mem_cons.2 ⟨rfl, fun d hd => by
    simp [isNumeric, hdigit d hd]⟩) hends ?_
  rw [Token.ofNumber?, digitsValue_toDigits, if_pos ⟨isWhole_toDigits _, Nat.succ_pos n⟩]
  rfl

/-! ### Values -/

/-- Going on from a state with some characters reads a value. -/
def Reads (state : Reading) (cs : List Char) (value : Json) : Prop :=
  ∃ tokens final, Token.readAll cs = .ok tokens ∧ state.steps tokens = .ok final ∧
    final.finished? = some value

/-- Blanks are passed over. -/
theorem Reads.blank {state : Reading} {cs : List Char} {value : Json} {c : Char}
    (hc : isBlank c = true) (h : Reads state cs value) : Reads state (c :: cs) value := by
  obtain ⟨tokens, final, htokens, hsteps, hfinal⟩ := h
  refine ⟨tokens, final, ?_, hsteps, hfinal⟩
  rw [Token.readAll, if_pos hc, htokens]

/-- A line break with its indentation is passed over. -/
theorem Reads.newline {state : Reading} {cs : List Char} {value : Json} (depth : Nat)
    (h : Reads state cs value) : Reads state (newline depth ++ cs) value := by
  refine Reads.blank rfl ?_
  induction 2 * depth with
  | zero => exact h
  | succ n ih => exact Reads.blank rfl ih

/-- No token begins with a blank. -/
theorem not_blank_of_read? {c : Char} {rest : List Char} {read : Token × List Char}
    (h : Token.read? (c :: rest) = some read) : isBlank c = false := by
  by_contra hblank
  simp only [isBlank, Bool.not_eq_false, Bool.or_eq_true, beq_iff_eq] at hblank
  rcases hblank with ((rfl | rfl) | rfl) | rfl <;> cases h

/-- A token is taken in by the state. -/
theorem Reads.token {state next : Reading} {cs behind : List Char} {value : Json} {token : Token}
    (hread : Token.read? cs = some (token, behind))
    (hstep : state.step? token = some next) (h : Reads next behind value) :
    Reads state cs value := by
  obtain ⟨tokens, final, htokens, hsteps, hfinal⟩ := h
  cases cs with
  | nil => cases hread
  | cons c rest =>
    -- the token comes first in the text, and is the first step
    refine ⟨(token, c :: rest) :: tokens, final, ?_, ?_, hfinal⟩
    · rw [Token.readAll, if_neg (by simp [not_blank_of_read? hread])]
      split
      · next hnone => cases hread.symm.trans hnone
      · next token' behind' hsome =>
        cases hread.symm.trans hsome
        rw [htokens]
        rfl
    · rw [Reading.steps, hstep]
      exact hsteps

/-- A state in which a value may come, among the given containers. -/
def Begins (state : Reading) (around : List OpenContainer) : Prop :=
  ∀ token next, Reading.begin? around token = some next → state.step? token = some next

theorem begins_value (around : List OpenContainer) : Begins (.value around) around :=
  fun _ _ h => h

theorem begins_firstItem (around : List OpenContainer) :
    Begins (.firstItem around) (.array [] :: around) := by
  intro token next h
  cases token with
  | closeArray => cases h
  | _ => exact h

/-- What is behind the first item of an array does not go on with a number. -/
theorem ends_writeItems {depth : Nat} {behind : List Char} (hends : Ends behind)
    (items : List Json) : Ends (writeItems depth behind items) := by
  cases items with
  | nil =>
    rw [writeItems]
    exact hends
  | cons item items =>
    rw [writeItems]
    rintro c ⟨⟩
    rfl

/-- What is behind the first member of an object does not go on with a number. -/
theorem ends_writeMembers {depth : Nat} {behind : List Char} (hends : Ends behind)
    (members : List (Option String × Json)) : Ends (writeMembers depth behind members) := by
  cases members with
  | nil =>
    rw [writeMembers]
    exact hends
  | cons member members =>
    rw [writeMembers]
    rintro c ⟨⟩
    rfl

theorem ends_newline (depth : Nat) (cs : List Char) : Ends (newline depth ++ cs) := by
  rintro c ⟨⟩
  rfl

/-- A key with its colon is read. -/
theorem Reads.key {state : Reading} {members : List (Option String × Json)} {key : Option String}
    {around : List OpenContainer} {cs : List Char} {value : Json}
    (hstep : state.step? (.string key) = some (.colon members key around))
    (h : Reads (.value (.object members key :: around)) cs value) :
    Reads state (writeString key ++ ':' :: ' ' :: cs) value := by
  exact Reads.token (read?_writeString key _) hstep (Reads.token rfl rfl (Reads.blank rfl h))

mutual

/-- The written form of a value is read in any state in which a value may come. -/
theorem Reads.write {state : Reading} {around : List OpenContainer} {behind : List Char}
    {value : Json} (hbegins : Begins state around) (hends : Ends behind) (depth : Nat) (json : Json)
    (h : Reads (.behind json around) behind value) :
    Reads state (Json.write depth behind json) value := by
  -- scalars are one token; a container opens, goes on with its first item, and leaves the others to
  -- the lemma on them
  match json with
  | .null =>
    rw [Json.write]
    exact Reads.token rfl (hbegins _ _ rfl) h
  | .bool true =>
    rw [Json.write]
    exact Reads.token rfl (hbegins _ _ rfl) h
  | .bool false =>
    rw [Json.write]
    exact Reads.token rfl (hbegins _ _ rfl) h
  | .integer (.ofNat n) =>
    rw [Json.write]
    exact Reads.token (read?_toDigits n hends) (hbegins _ _ rfl) h
  | .integer (.negSucc n) =>
    rw [Json.write]
    exact Reads.token (read?_minus_toDigits n hends) (hbegins _ _ rfl) h
  | .otherNumber =>
    rw [Json.write]
    have hnumeric : ∀ d ∈ ['-', '0'], isNumeric d = true := by simp [isNumeric]
    have hread : Token.read? (['-', '0'] ++ behind) = some (.otherNumber, behind) :=
      read?_number hnumeric hends rfl
    exact Reads.token hread (hbegins _ _ rfl) h
  | .string text =>
    rw [Json.write]
    exact Reads.token (read?_writeString text behind) (hbegins _ _ rfl) h
  | .array [] =>
    rw [Json.write]
    exact Reads.token rfl (hbegins _ _ rfl)
      (Reads.token rfl rfl h)
  | .array (item :: items) =>
    rw [Json.write]
    refine Reads.token rfl (hbegins _ _ rfl) (Reads.newline _ ?_)
    exact Reads.write (begins_firstItem around) (ends_writeItems (ends_newline _ _) items) _ item
      (Reads.writeItems items h)
  | .object [] =>
    rw [Json.write]
    exact Reads.token rfl (hbegins _ _ rfl)
      (Reads.token rfl rfl h)
  | .object ((key, item) :: members) =>
    rw [Json.write]
    refine Reads.token rfl (hbegins _ _ rfl) (Reads.newline _ ?_)
    refine Reads.key rfl ?_
    exact Reads.write (begins_value _) (ends_writeMembers (ends_newline _ _) members) _ item
      (Reads.writeMembers members h)

/-- The written form of the items behind one is read, up to the end of the array. -/
theorem Reads.writeItems {item : Json} {done : List Json} {around : List OpenContainer}
    {behind : List Char} {value : Json} {depth indent : Nat} (items : List Json)
    (h : Reads (.behind (.array ((item :: done).reverse ++ items)) around) behind value) :
    Reads (.behind item (.array done :: around))
      (Json.writeItems depth (Json.newline indent ++ ']' :: behind) items) value := by
  match items with
  | [] =>
    rw [Json.writeItems]
    rw [List.append_nil] at h
    exact Reads.newline _ (Reads.token rfl rfl h)
  | next :: items =>
    rw [Json.writeItems]
    refine Reads.token rfl rfl (Reads.newline _ ?_)
    refine Reads.write (begins_value _) (ends_writeItems (ends_newline _ _) items) _ next
      (Reads.writeItems items ?_)
    simpa using h

/-- The written form of the members behind one is read, up to the end of the object. -/
theorem Reads.writeMembers {item : Json} {done : List (Option String × Json)}
    {key : Option String} {around : List OpenContainer} {behind : List Char} {value : Json}
    {depth indent : Nat} (members : List (Option String × Json))
    (h : Reads (.behind (.object (((key, item) :: done).reverse ++ members)) around) behind
      value) :
    Reads (.behind item (.object done key :: around))
      (Json.writeMembers depth (Json.newline indent ++ '\x7d' :: behind) members) value := by
  match members with
  | [] =>
    rw [Json.writeMembers]
    rw [List.append_nil] at h
    exact Reads.newline _ (Reads.token rfl rfl h)
  | (nextKey, next) :: members =>
    rw [Json.writeMembers]
    refine Reads.token rfl rfl (Reads.newline _ (Reads.key rfl ?_))
    refine Reads.write (begins_value _) (ends_writeMembers (ends_newline _ _) members) _ next
      (Reads.writeMembers members ?_)
    simpa using h

end

/-- The written form of a value is read as the value. -/
theorem read_write (value : Json) : read (write 0 [] value) = .ok value := by
  have hends : Ends [] := by
    rintro c ⟨⟩
  have hbehind : Reads (.behind value []) [] value :=
    ⟨[], _, by rw [Token.readAll], rfl, rfl⟩
  obtain ⟨tokens, final, htokens, hsteps, hfinal⟩ :=
    Reads.write (begins_value []) hends 0 value hbehind
  simp only [read, htokens, hsteps, hfinal]

end PublicAssembly.Json
