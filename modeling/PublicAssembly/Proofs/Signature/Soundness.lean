import Mathlib.Data.Fin.Tuple.Basic
import PublicAssembly.Proofs.Signature.Completeness

/-!
# Whatever is read of a signature has a derivation

A signature can be read only if it begins with a header and a return type that is nested no deeper
than the bound allows, and it is read as what the return type stands for.

## Main statements

* `derives_of_readIn`: what is read as a type in a place has a derivation that fits there;
* `returnType_eq_ok_iff`: signatures are read exactly by the grammar.
-/

namespace PublicAssembly.Signature

open SigType

/-! ### Items, headers and modifiers -/

/-- Items that were read one after another are words in sequence if each item is a word. -/
theorem exists_of_times {σ α : Type} {read : Reader α} {p : σ → Prop} {bytes : σ → List UInt8}
    {value : σ → α}
    (hread : ∀ {c a d}, read c = .ok (a, d) → ∃ s, p s ∧ value s = a ∧ c.rest = bytes s ++ d.rest)
    {count : Nat} {c d : Cursor} {found : List α}
    (h : Reader.times read count c = .ok (found, d)) :
    ∃ items : Fin count → σ, (∀ i, p (items i)) ∧ (List.ofFn fun i => value (items i)) = found ∧
      c.rest = (inSequence fun i => bytes (items i)) ++ d.rest := by
  induction count generalizing c found with
  | zero =>
    cases h
    exact ⟨fun i => i.elim0, fun i => i.elim0, rfl, rfl⟩
  | succ count ih =>
    simp only [Reader.times, Reading.bind_eq_ok_iff, Reading.pure_eq_ok_iff, Prod.exists,
      Prod.mk.injEq] at h
    obtain ⟨item, c₁, hfirst, others, c₂, hothers, rfl, rfl⟩ := h
    obtain ⟨first, hp, rfl, hrest⟩ := hread hfirst
    obtain ⟨items, hitems, rfl, hrest₁⟩ := ih hothers
    -- the first word in front of those of the others
    refine ⟨Fin.cons first items, Fin.cases hp hitems, ?_, ?_⟩
    · rw [List.ofFn_succ]
      rfl
    · rw [hrest, hrest₁, inSequence_succ, List.append_assoc]
      rfl

/-- Numbers that were read with their count before them are stored numbers. -/
theorem NumberList.exists_of_times {c d e : Cursor} {count : Nat} {found : List Nat}
    (hcount : c.compressed = .ok (count, d))
    (h : Reader.times Cursor.compressed count d = .ok (found, e)) :
    ∃ list : NumberList, c.rest = list.bytes ++ e.rest := by
  obtain ⟨stored, rfl, hrest⟩ := StoredNumber.exists_of_compressed hcount
  obtain ⟨numbers, -, -, hnumbers⟩ := Signature.exists_of_times (p := fun _ => True)
    (fun hread => (StoredNumber.exists_of_compressed hread).imp fun _ hs => ⟨trivial, hs⟩) h
  refine ⟨⟨stored, numbers⟩, ?_⟩
  rw [hrest, hnumbers, NumberList.bytes, List.append_assoc]

theorem MethodHeader.exists_of_readHeader {c d : Cursor} {count : Nat}
    (h : readHeader c = .ok (count, d)) :
    ∃ header : MethodHeader, header.count.value = count ∧ c.rest = header.bytes ++ d.rest := by
  obtain ⟨position, rest⟩ := c
  cases rest with
  | nil => cases h
  | cons convention rest =>
    rw [readHeader] at h
    simp only [Cursor.next, Reading.ok_bind] at h
    -- a generic method has a count of its own parameters before the other one
    split at h
    · next hgeneric =>
      simp only [Reading.bind_eq_ok_iff, Prod.exists] at h
      obtain ⟨parameters, c₁, hparameters, hcount⟩ := h
      obtain ⟨arity, -, hrest⟩ := StoredNumber.exists_of_compressed hparameters
      obtain ⟨stored, rfl, hrest₁⟩ := StoredNumber.exists_of_compressed hcount
      refine ⟨⟨convention, some arity, stored, hgeneric.symm⟩, rfl, ?_⟩
      dsimp only at hrest
      rw [hrest, hrest₁]
      simp [MethodHeader.bytes]
    · next hgeneric =>
      obtain ⟨stored, rfl, hrest⟩ := StoredNumber.exists_of_compressed h
      refine ⟨⟨convention, none, stored, (Bool.of_not_eq_true hgeneric).symm⟩, rfl, ?_⟩
      dsimp only at hrest
      rw [hrest]
      simp [MethodHeader.bytes]

theorem TypeReference.exists_of_readNamed {c d : Cursor} {type : SigType}
    (h : readNamed c = .ok (type, d)) :
    ∃ reference : TypeReference, .named reference.table reference.row = type ∧
      c.rest = reference.number.bytes ++ d.rest := by
  rw [readNamed] at h
  simp only [Reading.bind_eq_ok_iff, Prod.exists] at h
  obtain ⟨value, c₁, hvalue, h⟩ := h
  obtain ⟨number, rfl, hrest⟩ := StoredNumber.exists_of_compressed hvalue
  split at h
  · cases h
  · next table row hdecode =>
    cases h
    exact ⟨⟨number, table, row, hdecode⟩, rfl, hrest⟩

/-- Where modifiers can be passed, there is a modifier, or a byte that does not announce one. -/
theorem lead_of_skipModifiers {c d : Cursor} (h : skipModifiers c = .ok d) :
    (∃ (modifier : Modifier) (rest : List UInt8), c.rest = modifier.bytes ++ rest) ∨
      ∃ lead rest, c.rest = lead :: rest ∧ ¬(lead = 0x1F ∨ lead = 0x20) := by
  obtain ⟨position, rest⟩ := c
  cases rest with
  | nil => cases h
  | cons lead rest =>
    by_cases hmodifier : lead = 0x1F ∨ lead = 0x20
    · left
      -- the number behind the mark was passed, so that it is stored there
      rw [skipModifiers, List.length_cons, skipModifiersUpTo_succ, if_pos hmodifier] at h
      simp only [Reading.bind_eq_ok_iff, Prod.exists] at h
      obtain ⟨value, c₁, hvalue, -⟩ := h
      obtain ⟨reference, -, hrest⟩ := StoredNumber.exists_of_compressed hvalue
      refine ⟨⟨lead = 0x1F, reference⟩, c₁.rest, ?_⟩
      dsimp only at hrest
      rw [hrest, Modifier.bytes, Modifier.element]
      rcases hmodifier with rfl | rfl <;> rfl
    · exact .inr ⟨lead, rest, rfl, hmodifier⟩

/-- Where a type can be read, there is a modifier, or a byte that does not announce one. -/
theorem lead_of_readIn {place : Place} {depth : Nat} {c : Cursor} {found : SigType × Cursor}
    (h : readIn place depth c = .ok found) :
    (∃ (modifier : Modifier) (rest : List UInt8), c.rest = modifier.bytes ++ rest) ∨
      ∃ lead rest, c.rest = lead :: rest ∧ ¬(lead = 0x1F ∨ lead = 0x20) := by
  -- every place begins with passing modifiers, and there has to be room for a type
  have hskip : ∃ d, skipModifiers c = .ok d := by
    cases place with
    | inner =>
      rw [readIn] at h
      cases hroom : roomAt depth with
      | zero =>
        rw [hroom] at h
        cases h
      | succ room =>
        rw [hroom, readType.eq_def] at h
        obtain ⟨d, hd, -⟩ := Reading.bind_eq_ok_iff.1 h
        exact ⟨d, hd⟩
    | result =>
      obtain ⟨d, hd, -⟩ := Reading.bind_eq_ok_iff.1 h
      exact ⟨d, hd⟩
    | parameter =>
      obtain ⟨d, hd, -⟩ := Reading.bind_eq_ok_iff.1 h
      exact ⟨d, hd⟩
  obtain ⟨d, hd⟩ := hskip
  exact lead_of_skipModifiers hd

/-! ### Types -/

/-- The bytes begin with a derivation that fits into a place at a depth and stands for the type, and
the others are behind it. -/
def Derives (place : Place) (depth : Nat) (bytes : List UInt8) (type : SigType)
    (rest : List UInt8) : Prop :=
  ∃ tree : TypeSyntax, tree.FitsAt place depth ∧ tree.type = type ∧ bytes = tree.bytes ++ rest

/-- A modifier before a derivation makes a derivation. -/
theorem Derives.modified {place : Place} {depth : Nat} {bytes rest : List UInt8} {type : SigType}
    (h : Derives place depth bytes type rest) (modifier : Modifier) :
    Derives place depth (modifier.bytes ++ bytes) type rest := by
  obtain ⟨tree, hfits, rfl, rfl⟩ := h
  refine ⟨.modified modifier tree, hfits, rfl, ?_⟩
  rw [TypeSyntax.bytes, List.append_assoc]

/-- What is read behind the element of a named type has a derivation. -/
theorem derives_named {depth : Nat} (hdepth : depth ≤ maxDepth) (isValueType : Bool) {c d : Cursor}
    {type : SigType} (h : readNamed c = .ok (type, d)) :
    Derives .inner depth ((if isValueType then 0x11 else 0x12) :: c.rest) type d.rest := by
  obtain ⟨reference, rfl, hrest⟩ := TypeReference.exists_of_readNamed h
  exact ⟨.named isValueType reference, hdepth, rfl, congrArg _ hrest⟩

/-- What is read behind the element of a generic parameter has a derivation. -/
theorem derives_genericParameter {depth : Nat} (hdepth : depth ≤ maxDepth) (ofMethod : Bool)
    {c d : Cursor} {type : SigType}
    (h : (do
      let number ← c.compressed
      return (if ofMethod then methodVariable number.1 else typeVariable number.1, number.2) :
        Except Image.Fault _) = .ok (type, d)) :
    Derives .inner depth ((if ofMethod then 0x1E else 0x13) :: c.rest) type d.rest := by
  simp only [Reading.bind_eq_ok_iff, Reading.pure_eq_ok_iff, Prod.exists, Prod.mk.injEq] at h
  obtain ⟨value, e, hvalue, rfl, rfl⟩ := h
  obtain ⟨number, rfl, hrest⟩ := StoredNumber.exists_of_compressed hvalue
  exact ⟨.genericParameter ofMethod number, hdepth, rfl, congrArg _ hrest⟩

/-- An element that is a whole type has a derivation. -/
theorem derives_primitive {depth : Nat} (hdepth : depth ≤ maxDepth) {lead : UInt8}
    {type : Primitive} (h : Primitive.ofElement? lead = some type) (rest : List UInt8) :
    Derives .inner depth (lead :: rest) (.primitive type) rest := by
  refine ⟨.primitive type, .inr hdepth, rfl, ?_⟩
  have helement : type.element = lead := by
    have hfound := List.find?_some h
    exact eq_of_beq hfound
  rw [TypeSyntax.bytes, helement]
  rfl

section Steps

variable {depth : Nat}
  (ih : ∀ (place : Place) {deeper : Nat} {c d : Cursor} {type : SigType},
    roomAt deeper < roomAt depth → readIn place deeper c = .ok (type, d) →
      Derives place deeper c.rest type d.rest)

include ih

/-- What is read behind the element of a wrapper has a derivation. -/
theorem derives_wrapped (hdepth : depth ≤ maxDepth) (wrapper : Wrapper) {c d : Cursor}
    {type : SigType}
    (h : (do
      let target ← readType (roomAt (depth + 1)) c
      return (wrapper.wrap target.1, target.2) : Except Image.Fault _) = .ok (type, d)) :
    Derives .inner depth (wrapper.element :: c.rest) type d.rest := by
  simp only [Reading.bind_eq_ok_iff, Reading.pure_eq_ok_iff, Prod.exists, Prod.mk.injEq] at h
  obtain ⟨target, e, htarget, rfl, rfl⟩ := h
  have hlt := roomAt_lt hdepth (Nat.lt_succ_self depth)
  obtain ⟨tree, hfits, rfl, hrest⟩ := ih .inner hlt htarget
  refine ⟨.wrapped wrapper tree, TypeSyntax.fitsAt_wrapped_inner.2 ⟨hdepth, hfits⟩, rfl, ?_⟩
  rw [hrest]
  rfl

/-- What is read as a parameter has a derivation, and it is marked if there is a mark before it. -/
theorem derives_parameter (hdepth : depth ≤ maxDepth) {c d : Cursor} {found : Bool × SigType}
    (h : readParameterWith (readType (roomAt (depth + 1))) c = .ok (found, d)) :
    ∃ parameter : Bool × TypeSyntax, parameter.2.FitsAt .parameter (depth + 1) ∧
      (parameter.1, parameter.2.type) = found ∧
        c.rest = TypeSyntax.parameterBytes parameter ++ d.rest := by
  obtain ⟨position, rest⟩ := c
  cases rest with
  | nil => cases h
  | cons lead rest =>
    rw [readParameterWith_eq, Reading.bind_eq_ok_iff] at h
    obtain ⟨⟨type, e⟩, hread, h⟩ := h
    cases h
    -- the type is read with less room, whether or not there is a mark before it
    have hlt := roomAt_lt hdepth (Nat.lt_succ_self depth)
    obtain ⟨tree, hfits, rfl, hrest⟩ := ih .parameter hlt hread
    refine ⟨(lead == 0x41, tree), hfits, rfl, ?_⟩
    by_cases hmark : lead = 0x41
    · rw [if_pos hmark] at hrest
      rw [TypeSyntax.parameterBytes, hmark, List.append_assoc, ← hrest]
      rfl
    · rw [if_neg hmark] at hrest
      rw [TypeSyntax.parameterBytes, beq_eq_false_iff_ne.2 hmark, List.append_assoc, ← hrest]
      rfl

/-- What is read behind the element of a pointer to a method has a derivation. -/
theorem derives_method (hdepth : depth ≤ maxDepth) {c d : Cursor} {type : SigType}
    (h : (do
      let count ← readHeader c
      let result ← readResultWith (readType (roomAt (depth + 2))) count.2
      let parameters ←
        Reader.times (readParameterWith (readType (roomAt (depth + 1)))) count.1 result.2
      return (method result.1 parameters.1, parameters.2) : Except Image.Fault _) = .ok (type, d)) :
    Derives .inner depth (0x1B :: c.rest) type d.rest := by
  simp only [Reading.bind_eq_ok_iff, Reading.pure_eq_ok_iff, Prod.exists, Prod.mk.injEq] at h
  obtain ⟨count, c₁, hheader, result, c₂, hresult, found, c₃, hfound, rfl, rfl⟩ := h
  obtain ⟨header, rfl, hrest⟩ := MethodHeader.exists_of_readHeader hheader
  -- there is less room for the result, which the induction needs
  have hlt : roomAt (depth + 2) < roomAt depth := roomAt_lt hdepth (by omega)
  obtain ⟨tree, hfits, rfl, hrest₁⟩ := ih .result hlt hresult
  obtain ⟨parameters, hparameters, rfl, hrest₂⟩ :=
    exists_of_times (derives_parameter ih hdepth) hfound
  refine ⟨.method header tree (fun i => (parameters i).1) fun i => (parameters i).2,
    ⟨hdepth, hfits, hparameters⟩, rfl, ?_⟩
  rw [hrest, hrest₁, hrest₂]
  simp [TypeSyntax.bytes, TypeSyntax.parameterBytes]

/-- What is read one level deeper has a derivation. -/
theorem derives_part (hdepth : depth ≤ maxDepth) {c d : Cursor} {type : SigType}
    (h : readType (roomAt (depth + 1)) c = .ok (type, d)) :
    Derives .inner (depth + 1) c.rest type d.rest :=
  ih .inner (roomAt_lt hdepth (Nat.lt_succ_self depth)) h

/-- What is read behind the element of an array has a derivation. -/
theorem derives_array (hdepth : depth ≤ maxDepth) {c d : Cursor} {type : SigType}
    (h : (do
      let element ← readType (roomAt (depth + 1)) c
      let rank ← element.2.compressed
      let sizeCount ← rank.2.compressed
      let sizes ← Reader.times Cursor.compressed sizeCount.1 sizeCount.2
      let boundCount ← sizes.2.compressed
      let bounds ← Reader.times Cursor.compressed boundCount.1 boundCount.2
      return (array element.1 rank.1, bounds.2) : Except Image.Fault _) = .ok (type, d)) :
    Derives .inner depth (0x14 :: c.rest) type d.rest := by
  simp only [Reading.bind_eq_ok_iff, Reading.pure_eq_ok_iff, Prod.exists, Prod.mk.injEq] at h
  obtain ⟨element, c₁, helement, rank, c₂, hrank, sizeCount, c₃, hsizeCount, sizes, c₄, hsizes,
    boundCount, c₅, hboundCount, bounds, c₆, hbounds, rfl, rfl⟩ := h
  obtain ⟨elementTree, hfits, rfl, hrest⟩ := derives_part ih hdepth helement
  obtain ⟨rankNumber, rfl, hrest₁⟩ := StoredNumber.exists_of_compressed hrank
  obtain ⟨sizeList, hrest₂⟩ := NumberList.exists_of_times hsizeCount hsizes
  obtain ⟨boundList, hrest₃⟩ := NumberList.exists_of_times hboundCount hbounds
  refine ⟨.array elementTree rankNumber sizeList boundList, ⟨hdepth, hfits⟩, rfl, ?_⟩
  rw [hrest, hrest₁, hrest₂, hrest₃]
  simp [TypeSyntax.bytes]

/-- What is read behind the element of a generic type has a derivation. -/
theorem derives_generic (hdepth : depth ≤ maxDepth) {c d : Cursor} {type : SigType}
    (h : (do
      let type ← readType (roomAt (depth + 1)) c
      let count ← type.2.compressed
      let arguments ← Reader.times (readType (roomAt (depth + 1))) count.1 count.2
      return (generic type.1 arguments.1, arguments.2) : Except Image.Fault _) = .ok (type, d)) :
    Derives .inner depth (0x15 :: c.rest) type d.rest := by
  simp only [Reading.bind_eq_ok_iff, Reading.pure_eq_ok_iff, Prod.exists, Prod.mk.injEq] at h
  obtain ⟨type, c₁, htype, value, c₂, hvalue, found, c₃, hfound, rfl, rfl⟩ := h
  obtain ⟨typeTree, hfits, rfl, hrest⟩ := derives_part ih hdepth htype
  obtain ⟨count, rfl, hrest₁⟩ := StoredNumber.exists_of_compressed hvalue
  obtain ⟨arguments, harguments, rfl, hrest₂⟩ := exists_of_times (derives_part ih hdepth) hfound
  refine ⟨.generic typeTree count arguments, ⟨hdepth, hfits, harguments⟩, rfl, ?_⟩
  rw [hrest, hrest₁, hrest₂]
  simp [TypeSyntax.bytes]

/-- What is read as a part behind a byte that does not announce a modifier has a derivation, if
whatever is read at a greater depth has one. -/
theorem derives_of_readType {position : Nat} {lead : UInt8} {rest : List UInt8} {type : SigType}
    {d : Cursor} (hmodifier : ¬(lead = 0x1F ∨ lead = 0x20))
    (h : readType (roomAt depth) ⟨position, lead :: rest⟩ = .ok (type, d)) :
    Derives .inner depth (lead :: rest) type d.rest := by
  have hdepth : depth ≤ maxDepth := by
    by_contra hdeep
    have hroom : roomAt depth = 0 := by
      rw [roomAt]
      omega
    rw [hroom] at h
    cases h
  -- one case for each element that is known, and the last one for those that are a whole type
  rw [roomAt_of_le hdepth, readType.eq_def] at h
  dsimp only at h
  rw [skipModifiers_of_ne hmodifier, Reading.ok_bind] at h
  simp only [Cursor.next, Reading.ok_bind] at h
  split at h
  · exact derives_wrapped ih hdepth .pointer h
  · exact derives_wrapped ih hdepth .byRef h
  · exact derives_named hdepth true h
  · exact derives_named hdepth false h
  · exact derives_genericParameter hdepth false h
  · exact derives_array ih hdepth h
  · exact derives_generic ih hdepth h
  · have hmethod := @derives_method depth ih hdepth ⟨position + 1, rest⟩ d type
    rw [← readType_roomAt_add_two] at hmethod
    exact hmethod h
  · exact derives_wrapped ih hdepth .vector h
  · exact derives_genericParameter hdepth true h
  · exact derives_wrapped ih hdepth .pinned h
  · split at h
    · next type hprimitive =>
      cases h
      exact derives_primitive hdepth hprimitive rest
    · cases h

end Steps

/-- What a place reads in its own way has a derivation, if what is read behind it has one. -/
theorem derives_of_reserves {place : Place} {depth position : Nat} {lead : UInt8}
    {rest : List UInt8} {type : SigType} {d : Cursor} (hplace : place.reserves lead = true)
    (htarget : ∀ {target : SigType},
      readIn .inner depth ⟨position + 1, rest⟩ = .ok (target, d) →
        Derives .inner depth rest target d.rest)
    (h : readIn place depth ⟨position, lead :: rest⟩ = .ok (type, d)) :
    Derives place depth (lead :: rest) type d.rest := by
  cases place with
  | inner => cases hplace
  | result =>
    obtain rfl | rfl := of_decide_eq_true hplace
    · -- no result
      cases h
      exact ⟨.primitive .void, .inl rfl, rfl, rfl⟩
    · -- a reference, and what it refers to is no deeper
      have hread : readIn .result depth ⟨position, 0x10 :: rest⟩ =
          readIn .inner depth ⟨position + 1, rest⟩ >>= fun found =>
            .ok (byRef found.1, found.2) := rfl
      rw [hread] at h
      obtain ⟨found, hfound, h⟩ := Reading.bind_eq_ok_iff.1 h
      cases h
      obtain ⟨tree, hfits, htype, hbehind⟩ := htarget hfound
      rw [← htype]
      exact ⟨.wrapped .byRef tree, hfits, rfl, congrArg _ hbehind⟩
  | parameter =>
    obtain rfl := of_decide_eq_true hplace
    cases h
    exact ⟨.primitive .typedReference, .inl rfl, rfl, rfl⟩

/-- What is read as a type in a place has a derivation that fits there. -/
theorem derives_of_readIn {place : Place} {depth : Nat} {c d : Cursor} {type : SigType}
    (h : readIn place depth c = .ok (type, d)) : Derives place depth c.rest type d.rest := by
  -- the parts of a type have less room, and what stands behind a modifier is shorter
  induction hroom : roomAt depth using Nat.strong_induction_on
    generalizing place depth c d type with
  | _ room ihRoom =>
    subst hroom
    induction hlength : c.rest.length using Nat.strong_induction_on
      generalizing place c d type with
    | _ length ihLength =>
      subst hlength
      have hdeeper (place : Place) {deeper : Nat} {c d : Cursor} {type : SigType}
          (hlt : roomAt deeper < roomAt depth) (hread : readIn place deeper c = .ok (type, d)) :
          Derives place deeper c.rest type d.rest := ihRoom _ hlt hread rfl
      obtain ⟨position, bytes⟩ := c
      rcases lead_of_readIn h with ⟨modifier, rest, hrest⟩ | ⟨lead, rest, hrest, hmodifier⟩
      · obtain rfl : bytes = modifier.bytes ++ rest := hrest
        rw [readIn_modifier] at h
        have hlt : rest.length < (modifier.bytes ++ rest).length := by
          rw [Modifier.bytes, List.cons_append, List.length_cons, List.length_append]
          omega
        exact Derives.modified (ihLength _ hlt h rfl) modifier
      · obtain rfl : bytes = lead :: rest := hrest
        cases hplace : place.reserves lead with
        | false =>
          rw [readIn_eq hmodifier hplace] at h
          obtain ⟨tree, hfits, hrest⟩ := derives_of_readType hdeeper hmodifier h
          exact ⟨tree, hfits.of_inner place, hrest⟩
        | true =>
          exact derives_of_reserves hplace
            (fun htarget => ihLength _ (Nat.lt_succ_self rest.length) htarget rfl) h

/-! ### Signatures -/

/-- Behind a header, a signature is read as a return type, whatever the header is. -/
theorem returnType_header (names : TypeNames) (header : MethodHeader) (tail : List UInt8) :
    returnType names (header.bytes ++ tail) =
      (fun found => found.1.render names) <$> readIn .result 1 ⟨header.bytes.length, tail⟩ := by
  have hread := header.reads 0 tail
  rw [Nat.zero_add] at hread
  rw [returnType, ofSignature, Cursor.start, hread, Reading.ok_bind]
  show (readIn .result 1 ⟨header.bytes.length, tail⟩ >>= _) >>= _ = _
  cases readIn .result 1 ⟨header.bytes.length, tail⟩ with
  | error fault => rfl
  | ok found => rfl

/-- The return type of a signature is read if the signature begins with a derivation. -/
theorem returnType_of_fitsAt (names : TypeNames) (header : MethodHeader) {result : TypeSyntax}
    (h : result.FitsAt .result 1) (rest : List UInt8) :
    returnType names (header.bytes ++ result.bytes ++ rest) = .ok (result.type.render names) := by
  rw [List.append_assoc, returnType_header, TypeSyntax.reads_of_fitsAt h]
  rfl

/-- What is read of a signature stands for the derivation with which the signature begins. -/
theorem exists_derivation (names : TypeNames) {blob : List UInt8} {text : String}
    (h : returnType names blob = .ok text) :
    ∃ derivation : Derivation blob, derivation.result.type.render names = text := by
  obtain ⟨type, htype, h⟩ := Reading.bind_eq_ok_iff.1 h
  cases h
  simp only [ofSignature, Reading.bind_eq_ok_iff, Reading.pure_eq_ok_iff, Prod.exists] at htype
  obtain ⟨count, c, hheader, type, d, hresult, rfl⟩ := htype
  obtain ⟨header, -, hblob⟩ := MethodHeader.exists_of_readHeader hheader
  have hread : readIn .result 1 c = .ok (type, d) := hresult
  obtain ⟨result, hfits, rfl, hrest⟩ := derives_of_readIn hread
  refine ⟨⟨header, result, d.rest, ?_, hfits⟩, rfl⟩
  rw [List.append_assoc, ← hrest]
  exact hblob

/-- What is read behind one header is read behind every other one. -/
theorem returnType_of_header {names : TypeNames} {header : MethodHeader} {tail : List UInt8}
    {text : String} (h : returnType names (header.bytes ++ tail) = .ok text)
    (other : MethodHeader) : returnType names (other.bytes ++ tail) = .ok text := by
  rw [returnType_header, Reading.map_eq_ok_iff] at h
  obtain ⟨⟨type, d⟩, hread, rfl⟩ := h
  obtain ⟨result, hfits, rfl, hrest⟩ := derives_of_readIn hread
  obtain rfl : tail = result.bytes ++ d.rest := hrest
  rw [← List.append_assoc]
  exact returnType_of_fitsAt names other hfits d.rest

/-- A signature can be read if and only if it begins with a derivation: a header and a return type
that is nested no deeper than the bound allows. There is only one then, and the text is how its type
is written. Neither the header nor the bytes behind the return type matter to it: with any other
header and any other bytes behind it, the return type is read as the same text. A signature that
cannot be read behind one header cannot be read behind another one, and the fault is the same if the
headers are equally long. -/
theorem returnType_eq_ok_iff (names : TypeNames) (blob : List UInt8) :
    (∀ text, returnType names blob = .ok text ↔
        ∃ derivation : Derivation blob, derivation.result.type.render names = text) ∧
      (∀ derivation other : Derivation blob, derivation = other) ∧
      (∀ (derivation : Derivation blob) (header : MethodHeader) (rest : List UInt8),
        returnType names (header.bytes ++ derivation.result.bytes ++ rest) =
          returnType names blob) ∧
      ∀ (header other : MethodHeader) (tail : List UInt8),
        (∀ text, returnType names (header.bytes ++ tail) = .ok text ↔
            returnType names (other.bytes ++ tail) = .ok text) ∧
          (header.bytes.length = other.bytes.length →
            returnType names (header.bytes ++ tail) = returnType names (other.bytes ++ tail)) := by
  have hread (derivation : Derivation blob) :
      returnType names blob = .ok (derivation.result.type.render names) := by
    conv_lhs => rw [derivation.blob_eq]
    exact returnType_of_fitsAt names derivation.header derivation.fits derivation.rest
  refine ⟨fun text => ⟨exists_derivation names, ?_⟩, Derivation.eq, ?_, ?_⟩
  · rintro ⟨derivation, rfl⟩
    exact hread derivation
  · intro derivation header rest
    rw [hread derivation]
    exact returnType_of_fitsAt names header derivation.fits rest
  · intro header other tail
    refine ⟨fun text => ?_, fun hlength => ?_⟩
    · exact ⟨fun h => returnType_of_header h other, fun h => returnType_of_header h header⟩
    · rw [returnType_header, returnType_header, hlength]

/-- The header of a method of a type, without parameters. -/
def staticHeader : MethodHeader :=
  ⟨0x00, none, ⟨.one, 0, by decide⟩, rfl⟩

/-- The header of a method of a value, with three parameters. -/
def instanceHeader : MethodHeader :=
  ⟨0x20, none, ⟨.one, 3, by decide⟩, rfl⟩

/-- A return type that is an array of strings, with a byte behind it that begins no type. -/
def stringsDerivation : Derivation (staticHeader.bytes ++ [0x1D, 0x0E, 0xFF]) :=
  ⟨staticHeader, .wrapped .vector (.primitive .string), [0xFF], rfl, by decide, .inr (by decide)⟩

/-- An array of strings is read behind either header, whatever stands behind it, and what is not a
type fails in the same way behind both. -/
theorem returnType_eq_ok_iff_staticHeader :
    staticHeader.bytes.length = instanceHeader.bytes.length ∧
      returnType (fun _ _ => none) (staticHeader.bytes ++ [0x1D, 0x0E, 0xFF]) = .ok "string[]" ∧
      returnType (fun _ _ => none) (instanceHeader.bytes ++ [0x1D, 0x0E]) = .ok "string[]" ∧
      returnType (fun _ _ => none) (staticHeader.bytes ++ [0x1D, 0x7F]) =
        returnType (fun _ _ => none) (instanceHeader.bytes ++ [0x1D, 0x7F]) := by
  have hlength : staticHeader.bytes.length = instanceHeader.bytes.length := rfl
  have htext : stringsDerivation.result.type.render (fun _ _ => none) = "string[]" := by
    simp [stringsDerivation, TypeSyntax.type, Wrapper.wrap, SigType.render, Primitive.name]
  obtain ⟨hread, -, hbehind, hheaders⟩ :=
    returnType_eq_ok_iff (fun _ _ => none) (staticHeader.bytes ++ [0x1D, 0x0E, 0xFF])
  have hfirst := (hread "string[]").2 ⟨stringsDerivation, htext⟩
  refine ⟨hlength, hfirst, ?_, (hheaders staticHeader instanceHeader [0x1D, 0x7F]).2 hlength⟩
  exact (hbehind stringsDerivation instanceHeader []).trans hfirst

end PublicAssembly.Signature
