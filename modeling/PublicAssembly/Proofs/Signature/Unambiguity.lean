import PublicAssembly.Proofs.Reading
import PublicAssembly.Proofs.Signature.Syntax

/-!
# The grammar of signatures is not ambiguous

Two derivations with equal bytes are equal, and more is true: whatever stands behind the bytes of a
derivation, no other derivation derives a beginning of the whole.
-/

namespace PublicAssembly.Signature

/-! ### Numbers -/

namespace StoredNumber

/-- A stored number can be read, whatever stands behind it. -/
theorem compressed_bytes (number : StoredNumber) (position : Nat) (tail : List UInt8) :
    Cursor.compressed ⟨position, number.bytes ++ tail⟩ =
      .ok (number.value, ⟨position + number.bytes.length, tail⟩) := by
  obtain ⟨form, value, hlt⟩ := number
  -- in each form the bits of the form and those of the number stand apart in the first byte
  cases form with
  | one =>
    rw [CompressedForm.bound] at hlt
    have hlead : (UInt8.ofNat value).toNat = value := by
      rw [UInt8.toNat_ofNat']
      omega
    simp [bytes, CompressedForm.encode, Cursor.compressed, hlead, hlt]
  | two =>
    rw [CompressedForm.bound] at hlt
    have hlead : (UInt8.ofNat (0x80 + value / 256)).toNat = 0x80 + value / 256 := by
      rw [UInt8.toNat_ofNat']
      omega
    have hlow : (UInt8.ofNat value).toNat = value % 256 := UInt8.toNat_ofNat'
    simp only [bytes, CompressedForm.encode, Cursor.compressed, List.cons_append, List.nil_append,
      hlead, hlow]
    rw [if_neg (by omega), if_pos (by omega)]
    have hvalue : (0x80 + value / 256 - 0x80) * 256 + value % 256 = value := by omega
    rw [hvalue]
    rfl
  | four =>
    rw [CompressedForm.bound] at hlt
    have hlead : (UInt8.ofNat (0xC0 + value / 16777216)).toNat = 0xC0 + value / 16777216 := by
      rw [UInt8.toNat_ofNat']
      omega
    have hlow (n : Nat) : (UInt8.ofNat n).toNat = n % 256 := UInt8.toNat_ofNat'
    simp only [bytes, CompressedForm.encode, Cursor.compressed, List.cons_append, List.nil_append,
      hlead, hlow]
    rw [if_neg (by omega), if_neg (by omega), if_pos (by omega)]
    have hvalue : (0xC0 + value / 16777216 - 0xC0) * 16777216 + value / 65536 % 256 * 65536 +
        value / 256 % 256 * 256 + value % 256 = value := by omega
    rw [hvalue]
    rfl

/-- Whatever is read as a number is a stored number. -/
theorem exists_of_compressed {c d : Cursor} {value : Nat} (h : c.compressed = .ok (value, d)) :
    ∃ number : StoredNumber, number.value = value ∧ c.rest = number.bytes ++ d.rest := by
  -- the bytes are those that the form stores, because each of them is below 256
  have hbyte {n : Nat} {b : UInt8} (hn : n % 256 = b.toNat) : UInt8.ofNat n = b := by
    rw [← UInt8.toNat_inj, UInt8.toNat_ofNat', hn]
  rw [Cursor.compressed] at h
  split at h
  · cases h
  · next lead rest hrest =>
    have hlead := lead.toNat_lt
    split_ifs at h with h₁ h₂ h₃
    · cases h
      refine ⟨⟨.one, lead.toNat, h₁⟩, rfl, ?_⟩
      simp only [hrest, bytes, CompressedForm.encode]
      rw [hbyte (b := lead) (by omega)]
      rfl
    · split at h
      · next b rest =>
        cases h
        have hb := b.toNat_lt
        refine ⟨⟨.two, _, ?_⟩, rfl, ?_⟩
        · rw [CompressedForm.bound]
          omega
        · simp only [hrest, bytes, CompressedForm.encode]
          rw [hbyte (b := lead) (by omega), hbyte (b := b) (by omega)]
          rfl
      · cases h
    · split at h
      · next b₁ b₂ b₃ rest =>
        cases h
        have hb₁ := b₁.toNat_lt
        have hb₂ := b₂.toNat_lt
        have hb₃ := b₃.toNat_lt
        refine ⟨⟨.four, _, ?_⟩, rfl, ?_⟩
        · rw [CompressedForm.bound]
          omega
        · simp only [hrest, bytes, CompressedForm.encode]
          rw [hbyte (b := lead) (by omega), hbyte (b := b₁) (by omega),
            hbyte (b := b₂) (by omega), hbyte (b := b₃) (by omega)]
          rfl
      · cases h

/-- What a stored number and the bytes behind it are is read off them. -/
theorem bytes_append_inj {number other : StoredNumber} {rest tail : List UInt8}
    (h : number.bytes ++ rest = other.bytes ++ tail) : number = other ∧ rest = tail := by
  have hread := number.compressed_bytes 0 rest
  rw [h, other.compressed_bytes 0 tail] at hread
  obtain ⟨form, value, hlt⟩ := number
  obtain ⟨otherForm, otherValue, hotherLt⟩ := other
  simp only [bytes, CompressedForm.length_encode, Except.ok.injEq, Prod.mk.injEq,
    Cursor.mk.injEq, Nat.zero_add] at hread
  obtain ⟨rfl, hlength, rfl⟩ := hread
  -- forms with equal lengths are equal
  have hform : form = otherForm := by
    cases form <;> cases otherForm <;> simp_all [CompressedForm.length]
  subst hform
  exact ⟨rfl, rfl⟩

end StoredNumber

/-! ### Items in sequence -/

section Sequences

variable {α : Type} {bytes : α → List UInt8} {rest tail : List UInt8}

/-- The bytes of one item and more are those of the first one and of the others. -/
theorem inSequence_succ {count : Nat} (bytes : Fin (count + 1) → List UInt8) :
    inSequence bytes = bytes 0 ++ inSequence fun i => bytes i.succ := by
  rw [inSequence, List.ofFn_succ, List.flatten_cons]
  rfl

/-- Items in sequence are read off their bytes if each of them is. -/
theorem inSequence_append_inj {count : Nat} {items others : Fin count → α}
    (hitems : ∀ i {rest tail : List UInt8}, bytes (items i) ++ rest = bytes (others i) ++ tail →
      items i = others i ∧ rest = tail)
    (h : inSequence (fun i => bytes (items i)) ++ rest =
      inSequence (fun i => bytes (others i)) ++ tail) : items = others ∧ rest = tail := by
  induction count with
  | zero => exact ⟨funext fun i => i.elim0, h⟩
  | succ count ih =>
    rw [inSequence_succ, inSequence_succ, List.append_assoc, List.append_assoc] at h
    obtain ⟨hfirst, h⟩ := hitems 0 h
    obtain ⟨hothers, hrest⟩ := ih (fun i => hitems i.succ) h
    refine ⟨funext fun i => ?_, hrest⟩
    cases i using Fin.cases with
    | zero => exact hfirst
    | succ i => exact congrFun hothers i

end Sequences

section Parts

variable {rest tail : List UInt8}

/-- Which of two bytes stands for a choice says what was chosen. -/
theorem eq_of_ite_eq {first second : UInt8} (hne : first ≠ second) {choice other : Bool}
    (h : (if choice then first else second) = if other then first else second) :
    choice = other := by
  cases choice with
  | false =>
    cases other with
    | false => rfl
    | true => exact absurd h.symm hne
  | true =>
    cases other with
    | false => exact absurd h hne
    | true => rfl

theorem Primitive.element_injective : Function.Injective Primitive.element := by
  intro type other h
  have hother := type.ofElement?_element
  rw [h, other.ofElement?_element] at hother
  exact (Option.some.inj hother).symm

theorem Wrapper.element_injective : Function.Injective Wrapper.element := by
  intro wrapper other h
  cases wrapper <;> cases other <;> first | rfl | cases h

theorem NumberList.bytes_append_inj {list other : NumberList}
    (h : list.bytes ++ rest = other.bytes ++ tail) : list = other ∧ rest = tail := by
  obtain ⟨count, numbers⟩ := list
  obtain ⟨otherCount, otherNumbers⟩ := other
  simp only [bytes, List.append_assoc] at h
  obtain ⟨hcount, hnumbers⟩ := StoredNumber.bytes_append_inj h
  subst hcount
  obtain ⟨hsame, hrest⟩ := inSequence_append_inj (fun _ => StoredNumber.bytes_append_inj) hnumbers
  rw [hsame]
  exact ⟨rfl, hrest⟩

theorem TypeReference.bytes_append_inj {reference other : TypeReference}
    (h : reference.number.bytes ++ rest = other.number.bytes ++ tail) :
    reference = other ∧ rest = tail := by
  obtain ⟨number, table, row, hrow⟩ := reference
  obtain ⟨otherNumber, otherTable, otherRow, hother⟩ := other
  obtain ⟨hnumber, hrest⟩ := StoredNumber.bytes_append_inj h
  dsimp only at hnumber
  subst hnumber
  -- the number says which row it is
  obtain ⟨rfl, rfl⟩ : table = otherTable ∧ row = otherRow := by simpa [hrow] using hother
  exact ⟨rfl, hrest⟩

theorem Modifier.bytes_append_inj {modifier other : Modifier}
    (h : modifier.bytes ++ rest = other.bytes ++ tail) : modifier = other ∧ rest = tail := by
  obtain ⟨required, reference⟩ := modifier
  obtain ⟨otherRequired, otherReference⟩ := other
  simp only [bytes, element, List.cons_append, List.cons.injEq] at h
  obtain ⟨helement, hreference⟩ := h
  obtain ⟨rfl, hrest⟩ := StoredNumber.bytes_append_inj hreference
  rw [eq_of_ite_eq (by decide) helement]
  exact ⟨rfl, hrest⟩

theorem MethodHeader.bytes_append_inj {header other : MethodHeader}
    (h : header.bytes ++ rest = other.bytes ++ tail) : header = other ∧ rest = tail := by
  obtain ⟨convention, arity, count, harity⟩ := header
  obtain ⟨otherConvention, otherArity, otherCount, hother⟩ := other
  simp only [bytes, List.cons_append, List.cons.injEq, List.append_assoc] at h
  obtain ⟨rfl, hnumbers⟩ := h
  -- the convention, which is the same, says whether there is an arity
  cases arity with
  | none =>
    cases otherArity with
    | none =>
      obtain ⟨rfl, hrest⟩ := StoredNumber.bytes_append_inj hnumbers
      exact ⟨rfl, hrest⟩
    | some otherArity => cases harity.trans hother.symm
  | some arity =>
    cases otherArity with
    | none => cases harity.trans hother.symm
    | some otherArity =>
      obtain ⟨hsame, hcount⟩ := StoredNumber.bytes_append_inj hnumbers
      obtain ⟨rfl, hrest⟩ := StoredNumber.bytes_append_inj hcount
      subst hsame
      exact ⟨rfl, hrest⟩

end Parts

/-! ### Types -/

/-- The rules by which a type is derived. -/
inductive Rule where
  | modified
  | primitive
  | wrapped
  | named
  | genericParameter
  | array
  | generic
  | method

/-- The rule that a byte announces, if it announces one. -/
def Rule.ofLead? (lead : UInt8) : Option Rule :=
  if lead = 0x1F ∨ lead = 0x20 then some modified
  else if lead = 0x0F ∨ lead = 0x10 ∨ lead = 0x1D ∨ lead = 0x45 then some wrapped
  else if lead = 0x11 ∨ lead = 0x12 then some named
  else if lead = 0x13 ∨ lead = 0x1E then some genericParameter
  else if lead = 0x14 then some array
  else if lead = 0x15 then some generic
  else if lead = 0x1B then some method
  else (Primitive.ofElement? lead).map fun _ => primitive

namespace TypeSyntax

/-- The rule by which a derivation begins. -/
def rule : TypeSyntax → Rule
  | modified .. => .modified
  | primitive .. => .primitive
  | wrapped .. => .wrapped
  | named .. => .named
  | genericParameter .. => .genericParameter
  | array .. => .array
  | generic .. => .generic
  | method .. => .method

/-- The first byte of a type announces the rule by which its derivation begins. -/
theorem exists_lead (type : TypeSyntax) :
    ∃ lead body, type.bytes = lead :: body ∧ Rule.ofLead? lead = some type.rule := by
  cases type with
  | modified modifier type =>
    refine ⟨_, _, rfl, ?_⟩
    rw [Modifier.element]
    cases modifier.required <;> rfl
  | primitive type => exact ⟨_, _, rfl, by cases type <;> rfl⟩
  | wrapped wrapper target => exact ⟨_, _, rfl, by cases wrapper <;> rfl⟩
  | named isValueType reference => exact ⟨_, _, rfl, by cases isValueType <;> rfl⟩
  | genericParameter ofMethod number => exact ⟨_, _, rfl, by cases ofMethod <;> rfl⟩
  | array => exact ⟨_, _, rfl, rfl⟩
  | generic => exact ⟨_, _, rfl, rfl⟩
  | method => exact ⟨_, _, rfl, rfl⟩

variable {rest tail : List UInt8}

/-- Derivations of beginnings of the same bytes begin by the same rule. -/
theorem rule_eq {type other : TypeSyntax} (h : type.bytes ++ rest = other.bytes ++ tail) :
    type.rule = other.rule := by
  obtain ⟨lead, body, hbytes, hrule⟩ := type.exists_lead
  obtain ⟨otherLead, otherBody, hotherBytes, hotherRule⟩ := other.exists_lead
  rw [hbytes, hotherBytes, List.cons_append, List.cons_append, List.cons.injEq] at h
  rw [h.1, hotherRule] at hrule
  exact (Option.some.inj hrule).symm

/-- The mark before a parameter is not the first byte of a type. -/
theorem bytes_ne_mark (type : TypeSyntax) : type.bytes ++ rest ≠ 0x41 :: tail := by
  intro h
  obtain ⟨lead, body, hbytes, hrule⟩ := type.exists_lead
  rw [hbytes, List.cons_append, List.cons.injEq] at h
  rw [h.1] at hrule
  cases hrule

/-- The bytes of a parameter with the mark before it, if there is one. -/
def parameterBytes (parameter : Bool × TypeSyntax) : List UInt8 :=
  markBytes parameter.1 ++ parameter.2.bytes

/-- Parameters are read off their bytes, with the marks before them, if their types are. -/
theorem parameterBytes_append_inj {marked other : Bool} {type otherType : TypeSyntax}
    (htype : ∀ {rest tail : List UInt8}, type.bytes ++ rest = otherType.bytes ++ tail →
      type = otherType ∧ rest = tail)
    (h : parameterBytes (marked, type) ++ rest = parameterBytes (other, otherType) ++ tail) :
    (marked, type) = (other, otherType) ∧ rest = tail := by
  -- a mark is not the beginning of a type, so that both have one or neither
  have hmarks : marked = other := by
    cases marked with
    | false =>
      cases other with
      | false => rfl
      | true => exact absurd h type.bytes_ne_mark
    | true =>
      cases other with
      | false => exact absurd h.symm otherType.bytes_ne_mark
      | true => rfl
  subst hmarks
  rw [parameterBytes, parameterBytes, List.append_assoc, List.append_assoc,
    List.append_cancel_left_eq] at h
  obtain ⟨rfl, hrest⟩ := htype h
  exact ⟨rfl, hrest⟩

/-- The derivation of a type and the bytes behind it are read off the bytes. -/
theorem bytes_append_inj {type other : TypeSyntax} (h : type.bytes ++ rest = other.bytes ++ tail) :
    type = other ∧ rest = tail := by
  -- along the one derivation: the other one goes by the same rule, so that it has the same parts
  induction type generalizing other rest tail with
  | modified modifier type ih =>
    cases other with
    | modified otherModifier other =>
      simp only [bytes, List.append_assoc] at h
      obtain ⟨rfl, htype⟩ := Modifier.bytes_append_inj h
      obtain ⟨rfl, hrest⟩ := ih htype
      exact ⟨rfl, hrest⟩
    | _ => cases rule_eq h
  | primitive type =>
    cases other with
    | primitive other =>
      simp only [bytes, List.cons_append, List.cons.injEq, List.nil_append] at h
      rw [Primitive.element_injective h.1]
      exact ⟨rfl, h.2⟩
    | _ => cases rule_eq h
  | wrapped wrapper target ih =>
    cases other with
    | wrapped otherWrapper other =>
      simp only [bytes, List.cons_append, List.cons.injEq] at h
      obtain ⟨hwrapper, htarget⟩ := h
      obtain ⟨rfl, hrest⟩ := ih htarget
      rw [Wrapper.element_injective hwrapper]
      exact ⟨rfl, hrest⟩
    | _ => cases rule_eq h
  | named isValueType reference =>
    cases other with
    | named otherIsValueType other =>
      simp only [bytes, List.cons_append, List.cons.injEq] at h
      obtain ⟨hlead, hreference⟩ := h
      obtain ⟨rfl, hrest⟩ := TypeReference.bytes_append_inj hreference
      rw [eq_of_ite_eq (by decide) hlead]
      exact ⟨rfl, hrest⟩
    | _ => cases rule_eq h
  | genericParameter ofMethod number =>
    cases other with
    | genericParameter otherOfMethod other =>
      simp only [bytes, List.cons_append, List.cons.injEq] at h
      obtain ⟨hlead, hnumber⟩ := h
      obtain ⟨rfl, hrest⟩ := StoredNumber.bytes_append_inj hnumber
      rw [eq_of_ite_eq (by decide) hlead]
      exact ⟨rfl, hrest⟩
    | _ => cases rule_eq h
  | array element rank sizes bounds ih =>
    cases other with
    | array otherElement otherRank otherSizes otherBounds =>
      simp only [bytes, List.cons_append, List.cons.injEq, true_and, List.append_assoc] at h
      obtain ⟨rfl, hrank⟩ := ih h
      obtain ⟨rfl, hsizes⟩ := StoredNumber.bytes_append_inj hrank
      obtain ⟨rfl, hbounds⟩ := NumberList.bytes_append_inj hsizes
      obtain ⟨rfl, hrest⟩ := NumberList.bytes_append_inj hbounds
      exact ⟨rfl, hrest⟩
    | _ => cases rule_eq h
  | generic type count arguments ihType ihArguments =>
    cases other with
    | generic otherType otherCount otherArguments =>
      simp only [bytes, List.cons_append, List.cons.injEq, true_and, List.append_assoc] at h
      obtain ⟨rfl, hcount⟩ := ihType h
      obtain ⟨rfl, harguments⟩ := StoredNumber.bytes_append_inj hcount
      obtain ⟨rfl, hrest⟩ := inSequence_append_inj (fun i => ihArguments i) harguments
      exact ⟨rfl, hrest⟩
    | _ => cases rule_eq h
  | method header result marked parameters ihResult ihParameters =>
    cases other with
    | method otherHeader otherResult otherMarked otherParameters =>
      simp only [bytes, List.cons_append, List.cons.injEq, true_and, List.append_assoc] at h
      obtain ⟨rfl, hresult⟩ := MethodHeader.bytes_append_inj h
      obtain ⟨rfl, hparameters⟩ := ihResult hresult
      obtain ⟨hsame, hrest⟩ := inSequence_append_inj
        (fun i => parameterBytes_append_inj (ihParameters i)) hparameters
      have hmarked : marked = otherMarked := funext fun i => (Prod.mk.inj (congrFun hsame i)).1
      have hparameter : parameters = otherParameters :=
        funext fun i => (Prod.mk.inj (congrFun hsame i)).2
      rw [hmarked, hparameter]
      exact ⟨rfl, hrest⟩
    | _ => cases rule_eq h

end TypeSyntax

/-- There is at most one derivation of the beginning of a signature. -/
theorem Derivation.eq {blob : List UInt8} (d e : Derivation blob) : d = e := by
  obtain ⟨header, result, rest, hblob, hfits⟩ := d
  obtain ⟨otherHeader, otherResult, otherRest, hother, hotherFits⟩ := e
  rw [hblob, List.append_assoc, List.append_assoc] at hother
  obtain ⟨hheader, hresult⟩ := MethodHeader.bytes_append_inj hother
  obtain ⟨hsame, hrest⟩ := TypeSyntax.bytes_append_inj hresult
  subst hheader hsame hrest
  rfl

end PublicAssembly.Signature
