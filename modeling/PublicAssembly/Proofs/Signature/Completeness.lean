import PublicAssembly.Proofs.Signature.Unambiguity

/-!
# Every derivation of a signature is read

A type that is nested no deeper than the bound allows is read, wherever it stands and whatever
stands behind it, as what its derivation stands for, and exactly its bytes are passed.

## Main statements

* `readIn_modifier`: a modifier before a type does not change what is read in any place;
* `TypeSyntax.reads_of_fitsAt`: a type that fits into a place at a depth is read there.
-/

namespace PublicAssembly.Signature

open SigType

/-! ### Words that are read -/

/-- The reader reads the word as the value, wherever the word stands and whatever stands behind
it. -/
def Reads {α : Type} (read : Reader α) (word : List UInt8) (a : α) : Prop :=
  ∀ position tail,
    read ⟨position, word ++ tail⟩ = .ok (a, ⟨position + word.length, tail⟩)

namespace Reads

variable {α β : Type} {read : Reader α} {word second : List UInt8} {a : α} {b : β}

/-- Two words are read one after the other. -/
theorem bind {next : α × Cursor → Except Image.Fault (β × Cursor)} (hread : Reads read word a)
    (hnext : Reads (fun c => next (a, c)) second b) :
    Reads (fun c => read c >>= next) (word ++ second) b := by
  intro position tail
  show read ⟨position, word ++ second ++ tail⟩ >>= next = _
  rw [List.append_assoc, hread, Reading.ok_bind, List.length_append, ← Nat.add_assoc]
  exact hnext (position + word.length) tail

/-- A word is read, and then a value is made of the one it was read as. -/
theorem last {next : α × Cursor → Except Image.Fault (β × Cursor)} (hread : Reads read word a)
    (hnext : ∀ c, next (a, c) = .ok (b, c)) : Reads (fun c => read c >>= next) word b := by
  intro position tail
  show read ⟨position, word ++ tail⟩ >>= next = _
  rw [hread, Reading.ok_bind, hnext]

/-- A word is read if its first byte is passed and the others are read. -/
theorem cons {lead : UInt8} {body : Reader α}
    (hlead : ∀ position rest, read ⟨position, lead :: rest⟩ = body ⟨position + 1, rest⟩)
    (hbody : Reads body word a) : Reads read (lead :: word) a := by
  intro position tail
  rw [List.cons_append, hlead, hbody, List.length_cons]
  congr 3
  omega

/-- Words in sequence are read one after another. -/
theorem times {count : Nat} {words : Fin count → List UInt8} {values : Fin count → α}
    (h : ∀ i, Reads read (words i) (values i)) :
    Reads (Reader.times read count) (inSequence words) (List.ofFn values) := by
  induction count with
  | zero =>
    intro position tail
    rfl
  | succ count ih =>
    rw [inSequence_succ, List.ofFn_succ]
    show Reads (fun c => do
      let item ← read c
      let others ← Reader.times read count item.2
      return (item.1 :: others.1, others.2)) _ _
    refine (h 0).bind ?_
    dsimp only
    exact (ih fun i => h i.succ).last fun _ => rfl

end Reads

/-! ### Numbers and headers -/

theorem StoredNumber.reads (number : StoredNumber) :
    Reads Cursor.compressed number.bytes number.value :=
  number.compressed_bytes

/-- A header is read as the number of parameters that it declares. -/
theorem MethodHeader.reads (header : MethodHeader) :
    Reads readHeader header.bytes header.count.value := by
  obtain ⟨convention, arity, count, harity⟩ := header
  cases arity with
  | none =>
    refine .cons (fun position rest => ?_) count.reads
    show (if convention.toNat.testBit genericBit then _ else _) = _
    rw [← harity]
    rfl
  | some arity =>
    have hnumbers : Reads (fun c => do
        let arity ← c.compressed
        arity.2.compressed) (arity.bytes ++ count.bytes) count.value := arity.reads.bind count.reads
    refine .cons (fun position rest => ?_) hnumbers
    show (if convention.toNat.testBit genericBit then _ else _) = _
    rw [← harity]
    rfl

theorem TypeReference.reads (reference : TypeReference) :
    Reads readNamed reference.number.bytes (.named reference.table reference.row) := by
  intro position tail
  rw [readNamed, reference.number.compressed_bytes, Reading.ok_bind]
  dsimp only
  rw [reference.decode_eq]
  rfl

/-! ### Modifiers -/

theorem skipModifiersUpTo_succ (limit position : Nat) (lead : UInt8) (rest : List UInt8) :
    skipModifiersUpTo (limit + 1) ⟨position, lead :: rest⟩ =
      if lead = 0x1F ∨ lead = 0x20 then
        Cursor.compressed ⟨position + 1, rest⟩ >>= fun found => skipModifiersUpTo limit found.2
      else .ok ⟨position, lead :: rest⟩ := rfl

/-- How many modifiers may be passed does not matter if there are no more of them than bytes. -/
theorem skipModifiersUpTo_eq {limit other : Nat} {c : Cursor} (hlimit : c.rest.length ≤ limit)
    (hother : c.rest.length ≤ other) : skipModifiersUpTo limit c = skipModifiersUpTo other c := by
  -- both numbers go down with each modifier, which takes bytes
  induction limit generalizing c other with
  | zero =>
    obtain ⟨position, rest⟩ := c
    cases rest with
    | nil => cases other <;> rfl
    | cons lead rest => cases hlimit
  | succ limit ih =>
    obtain ⟨position, rest⟩ := c
    cases rest with
    | nil => cases other <;> rfl
    | cons lead rest =>
      cases other with
      | zero => cases hother
      | succ other =>
        rw [skipModifiersUpTo_succ, skipModifiersUpTo_succ]
        split_ifs
        · cases hread : Cursor.compressed ⟨position + 1, rest⟩ with
          | error fault => rfl
          | ok found =>
            have hshorter : found.2.rest.length < rest.length := Cursor.length_rest_compressed hread
            rw [List.length_cons] at hlimit hother
            exact ih (by omega) (by omega)
        · rfl

/-- A modifier is passed. -/
theorem skipModifiers_modifier (modifier : Modifier) (position : Nat) (rest : List UInt8) :
    skipModifiers ⟨position, modifier.bytes ++ rest⟩ =
      skipModifiers ⟨position + modifier.bytes.length, rest⟩ := by
  have hmodifier : modifier.element = 0x1F ∨ modifier.element = 0x20 := by
    rw [Modifier.element]
    cases modifier.required <;> simp
  have hread := modifier.reference.compressed_bytes (position + 1) rest
  rw [skipModifiers, Modifier.bytes, List.cons_append, List.length_cons,
    skipModifiersUpTo_succ, if_pos hmodifier, hread, Reading.ok_bind, List.length_cons,
    Nat.add_right_comm position, ← Nat.add_assoc]
  refine skipModifiersUpTo_eq ?_ (Nat.le_refl _)
  rw [List.length_append]
  exact Nat.le_add_left _ _

/-- Nothing is passed where there is no modifier. -/
theorem skipModifiers_of_ne {lead : UInt8} (h : ¬(lead = 0x1F ∨ lead = 0x20)) (position : Nat)
    (rest : List UInt8) : skipModifiers ⟨position, lead :: rest⟩ = .ok ⟨position, lead :: rest⟩ :=
  if_neg h

/-! ### Types in their places -/

/-- How many levels are left to a type at a depth. -/
def roomAt (depth : Nat) : Nat :=
  maxDepth + 1 - depth

theorem roomAt_of_le {depth : Nat} (h : depth ≤ maxDepth) :
    roomAt depth = roomAt (depth + 1) + 1 := by
  rw [roomAt, roomAt]
  omega

/-- There is less room where it is deeper. -/
theorem roomAt_lt {depth deeper : Nat} (hdepth : depth ≤ maxDepth) (h : depth < deeper) :
    roomAt deeper < roomAt depth := by
  rw [roomAt, roomAt]
  omega

/-- What is read two levels deeper is read with one level less than one level deeper, or not at
all. -/
theorem readType_roomAt_add_two (depth : Nat) :
    (match roomAt (depth + 1) with
      | 0 => tooDeep
      | room + 1 => readType room) = readType (roomAt (depth + 2)) := by
  have hroom : roomAt (depth + 2) = roomAt (depth + 1) - 1 := rfl
  rw [hroom]
  cases roomAt (depth + 1) with
  | zero => rfl
  | succ room => rfl

/-- Read a parameter that has no mark before it, whose own type is read by `inner`. -/
def readUnmarkedWith (inner : Reader SigType) : Reader SigType := fun c => do
  let c ← skipModifiers c
  let element ← c.peek
  if element = 0x16 then
    let (_, c) ← c.next
    return (primitive .typedReference, c)
  else
    inner c

/-- A parameter is a mark, if there is one, and a parameter without a mark. -/
theorem readParameterWith_eq (inner : Reader SigType) (position : Nat) (lead : UInt8)
    (rest : List UInt8) :
    readParameterWith inner ⟨position, lead :: rest⟩ =
      readUnmarkedWith inner
          (if lead = 0x41 then ⟨position + 1, rest⟩ else ⟨position, lead :: rest⟩) >>=
        fun found => .ok ((lead == 0x41, found.1), found.2) := by
  -- the mark is passed before anything else is looked at
  have hmark : readParameterWith inner ⟨position, lead :: rest⟩ =
      skipModifiers (if lead = 0x41 then ⟨position + 1, rest⟩ else ⟨position, lead :: rest⟩) >>=
        fun c => c.peek >>= fun element =>
          if element = 0x16 then
            c.next >>= fun found => .ok ((lead == 0x41, primitive .typedReference), found.2)
          else inner c >>= fun found => .ok ((lead == 0x41, found.1), found.2) := by
    by_cases h : lead = 0x41
    · rw [h]
      rfl
    · have hmarked : (lead == 0x41) = false := beq_eq_false_iff_ne.2 h
      rw [if_neg h, hmarked, readParameterWith]
      show (if (lead == 0x41) = true then _ else _) = _
      rw [hmarked]
      rfl
  rw [hmark, readUnmarkedWith, bind_assoc]
  refine bind_congr fun c => ?_
  rw [bind_assoc]
  refine bind_congr fun element => ?_
  split_ifs
  · rw [bind_assoc]
    rfl
  · rfl

/-- Read a type in a place at a depth. -/
def readIn : Place → (depth : Nat) → Reader SigType
  | .inner, depth => readType (roomAt depth)
  | .result, depth => readResultWith (readType (roomAt depth))
  | .parameter, depth => readUnmarkedWith (readType (roomAt depth))

/-- In every place, a modifier before a type is passed. -/
theorem readIn_modifier (place : Place) (depth : Nat) (modifier : Modifier) (position : Nat)
    (rest : List UInt8) :
    readIn place depth ⟨position, modifier.bytes ++ rest⟩ =
      readIn place depth ⟨position + modifier.bytes.length, rest⟩ := by
  cases place with
  | inner =>
    rw [readIn]
    cases roomAt depth with
    -- where no level is left, the fault says nothing of the bytes
    | zero => rfl
    | succ room =>
      rw [readType.eq_def, readType.eq_def (room + 1)]
      dsimp only
      rw [skipModifiers_modifier]
  | result => rw [readIn, readResultWith, skipModifiers_modifier, readResultWith]
  | parameter => rw [readIn, readUnmarkedWith, skipModifiers_modifier, readUnmarkedWith]

/-- The first bytes of the types that a place reads in its own way. -/
def Place.reserves : Place → UInt8 → Bool
  | inner, _ => false
  | result, lead => lead = 0x01 ∨ lead = 0x10
  | parameter, lead => lead = 0x16

/-- Types are read in any place as they are read as parts, but for those that the place reads in its
own way. -/
theorem readIn_eq {place : Place} {lead : UInt8} (hmodifier : ¬(lead = 0x1F ∨ lead = 0x20))
    (hplace : place.reserves lead = false) (depth position : Nat) (rest : List UInt8) :
    readIn place depth ⟨position, lead :: rest⟩ =
      readType (roomAt depth) ⟨position, lead :: rest⟩ := by
  -- there is no modifier to pass, and the byte is not one that the place reserves
  cases place with
  | inner => rfl
  | result =>
    simp only [Place.reserves, decide_eq_false_iff_not, not_or] at hplace
    rw [readIn, readResultWith, skipModifiers_of_ne hmodifier, Reading.ok_bind]
    show (if lead = 0x01 then _ else if lead = 0x10 then _ else _) = _
    rw [if_neg hplace.1, if_neg hplace.2]
  | parameter =>
    simp only [Place.reserves, decide_eq_false_iff_not] at hplace
    rw [readIn, readUnmarkedWith, skipModifiers_of_ne hmodifier, Reading.ok_bind]
    exact if_neg hplace

/-- A word is read in a place as it is read as a part, if it does not begin in a way that the place
reserves. -/
theorem Reads.readIn {place : Place} {depth : Nat} {lead : UInt8} {body : List UInt8}
    {type : SigType} (h : Reads (readType (roomAt depth)) (lead :: body) type)
    (hmodifier : ¬(lead = 0x1F ∨ lead = 0x20)) (hplace : place.reserves lead = false) :
    Reads (readIn place depth) (lead :: body) type := by
  intro position tail
  rw [List.cons_append, readIn_eq hmodifier hplace]
  exact h position tail

/-- A parameter is read with the mark before it if its type is read. -/
theorem Reads.parameter {inner : Reader SigType} {type : TypeSyntax}
    (h : Reads (readUnmarkedWith inner) type.bytes type.type) (marked : Bool) :
    Reads (readParameterWith inner) (markBytes marked ++ type.bytes) (marked, type.type) := by
  intro position tail
  cases marked with
  | false =>
    obtain ⟨lead, body, hbytes, -⟩ := type.exists_lead
    -- the type does not begin with a mark, so that none is taken from it
    have hlead : lead ≠ 0x41 := by
      rintro rfl
      have hmark : type.bytes ++ tail = 0x41 :: (body ++ tail) := by
        rw [hbytes]
        rfl
      exact type.bytes_ne_mark hmark
    have hread := h position tail
    show readParameterWith inner ⟨position, type.bytes ++ tail⟩ = _
    rw [hbytes, List.cons_append] at hread ⊢
    rw [readParameterWith_eq, if_neg hlead, hread, Reading.ok_bind, beq_eq_false_iff_ne.2 hlead]
    rfl
  | true =>
    show readParameterWith inner ⟨position, 0x41 :: (type.bytes ++ tail)⟩ = _
    rw [readParameterWith_eq, if_pos rfl, h, Reading.ok_bind, Nat.add_right_comm]
    rfl

/-! ### The rules of the grammar

One lemma for each rule: a type is read in a place if its parts are read where the rule has them.
But for what a place reads in its own way, `Reads.readIn` leads the rule back to `readType`, which
passes the first byte and goes on with the parts. -/

namespace TypeSyntax

variable {place : Place} {depth : Nat}

/-- What a place reads itself is read there at any depth. -/
theorem reads_primitive_of_omits {type : Primitive} (h : place.omits type = true) :
    Reads (readIn place depth) (primitive type).bytes (primitive type).type := by
  cases place with
  | inner => cases h
  | result =>
    obtain rfl := of_decide_eq_true h
    exact fun position tail => rfl
  | parameter =>
    obtain rfl := of_decide_eq_true h
    exact fun position tail => rfl

/-- The element of a primitive type is read as the type where a level is left. -/
theorem readType_primitive (type : Primitive) (room : Nat) :
    Reads (readType (room + 1)) [type.element] (.primitive type) := by
  intro position tail
  have hlast : readType (room + 1) ⟨position, type.element :: tail⟩ =
      (Primitive.ofElement? type.element).elim
        (.error (.malformed (.unknownElement type.element.toNat)))
        fun type => .ok (.primitive type, ⟨position + 1, tail⟩) := by
    rw [readType.eq_def]
    cases type <;> rfl
  rw [type.ofElement?_element] at hlast
  exact hlast

theorem reads_primitive (type : Primitive) (hdepth : depth ≤ maxDepth)
    (homits : place.omits type = false) :
    Reads (readIn place depth) (primitive type).bytes (primitive type).type := by
  have hread : Reads (readType (roomAt depth)) [type.element] (.primitive type) := by
    rw [roomAt_of_le hdepth]
    exact readType_primitive type _
  refine hread.readIn (by cases type <;> decide) ?_
  -- the bytes that a place reserves are the elements of the types that it omits
  revert homits
  cases place <;> cases type <;> simp [Place.omits, Place.reserves, Primitive.element]

/-- The result of a method may be a reference, and what it refers to is no deeper then. -/
theorem reads_result_byRef {target : TypeSyntax}
    (htarget : Reads (readType (roomAt depth)) target.bytes target.type) :
    Reads (readIn .result depth) (wrapped .byRef target).bytes (wrapped .byRef target).type := by
  have hbody : Reads (fun c => do
      let target ← readType (roomAt depth) c
      return (byRef target.1, target.2)) target.bytes (byRef target.type) :=
    htarget.last fun _ => rfl
  exact hbody.cons fun _ _ => rfl

theorem reads_wrapped {wrapper : Wrapper} {target : TypeSyntax}
    (hresult : ¬(wrapper = .byRef ∧ place = .result)) (hdepth : depth ≤ maxDepth)
    (htarget : Reads (readType (roomAt (depth + 1))) target.bytes target.type) :
    Reads (readIn place depth) (wrapped wrapper target).bytes (wrapped wrapper target).type := by
  have hbody : Reads (fun c => do
      let target ← readType (roomAt (depth + 1)) c
      return (wrapper.wrap target.1, target.2)) target.bytes (wrapper.wrap target.type) :=
    htarget.last fun _ => rfl
  have hread : Reads (readType (roomAt depth)) (wrapped wrapper target).bytes
      (wrapped wrapper target).type := by
    rw [roomAt_of_le hdepth]
    refine hbody.cons fun position rest => ?_
    rw [readType.eq_def]
    cases wrapper <;> rfl
  -- no place but that of a result reserves a wrapper, and only the reference
  refine hread.readIn (by cases wrapper <;> decide) ?_
  cases wrapper <;> cases place <;> first | rfl | exact absurd ⟨rfl, rfl⟩ hresult

theorem reads_named (isValueType : Bool) (reference : TypeReference) (hdepth : depth ≤ maxDepth) :
    Reads (readIn place depth) (named isValueType reference).bytes
      (named isValueType reference).type := by
  have hread : Reads (readType (roomAt depth)) (named isValueType reference).bytes
      (named isValueType reference).type := by
    rw [roomAt_of_le hdepth]
    refine .cons (fun position rest => ?_) reference.reads
    rw [readType.eq_def]
    cases isValueType <;> rfl
  refine hread.readIn ?_ ?_
  · cases isValueType <;> decide
  · cases isValueType <;> cases place <;> rfl

theorem reads_genericParameter (ofMethod : Bool) (number : StoredNumber)
    (hdepth : depth ≤ maxDepth) :
    Reads (readIn place depth) (genericParameter ofMethod number).bytes
      (genericParameter ofMethod number).type := by
  have hbody : Reads (fun c => do
      let number ← c.compressed
      return (if ofMethod then .methodVariable number.1 else .typeVariable number.1, number.2))
      number.bytes (genericParameter ofMethod number).type :=
    number.reads.last fun _ => rfl
  have hread : Reads (readType (roomAt depth)) (genericParameter ofMethod number).bytes
      (genericParameter ofMethod number).type := by
    rw [roomAt_of_le hdepth]
    refine hbody.cons fun position rest => ?_
    rw [readType.eq_def]
    cases ofMethod <;> rfl
  refine hread.readIn ?_ ?_
  · cases ofMethod <;> decide
  · cases ofMethod <;> cases place <;> rfl

theorem reads_array {element : TypeSyntax} (rank : StoredNumber) (sizes bounds : NumberList)
    (hdepth : depth ≤ maxDepth)
    (helement : Reads (readType (roomAt (depth + 1))) element.bytes element.type) :
    Reads (readIn place depth) (array element rank sizes bounds).bytes
      (array element rank sizes bounds).type := by
  have hbody : Reads (fun c => do
      let element ← readType (roomAt (depth + 1)) c
      let rank ← element.2.compressed
      let sizeCount ← rank.2.compressed
      let sizes ← Reader.times Cursor.compressed sizeCount.1 sizeCount.2
      let boundCount ← sizes.2.compressed
      let bounds ← Reader.times Cursor.compressed boundCount.1 boundCount.2
      return (.array element.1 rank.1, bounds.2))
      (element.bytes ++ (rank.bytes ++ (sizes.count.bytes ++
        ((inSequence fun i => (sizes.numbers i).bytes) ++ (bounds.count.bytes ++
          inSequence fun i => (bounds.numbers i).bytes)))))
      (array element rank sizes bounds).type := by
    refine helement.bind ?_
    dsimp only
    refine rank.reads.bind ?_
    dsimp only
    refine sizes.count.reads.bind ?_
    dsimp only
    refine (Reads.times fun i => (sizes.numbers i).reads).bind ?_
    dsimp only
    refine bounds.count.reads.bind ?_
    dsimp only
    -- the bounds are passed and not kept, as the sizes are
    exact (Reads.times fun i => (bounds.numbers i).reads).last fun _ => rfl
  have hread : Reads (readType (roomAt depth)) (array element rank sizes bounds).bytes
      (array element rank sizes bounds).type := by
    rw [roomAt_of_le hdepth, bytes, NumberList.bytes, NumberList.bytes]
    simp only [List.append_assoc]
    refine hbody.cons fun position rest => ?_
    rw [readType.eq_def]
    rfl
  exact hread.readIn (by decide) (by cases place <;> rfl)

theorem reads_generic {type : TypeSyntax} {count : StoredNumber}
    {arguments : Fin count.value → TypeSyntax} (hdepth : depth ≤ maxDepth)
    (htype : Reads (readType (roomAt (depth + 1))) type.bytes type.type)
    (harguments : ∀ i,
      Reads (readType (roomAt (depth + 1))) (arguments i).bytes (arguments i).type) :
    Reads (readIn place depth) (generic type count arguments).bytes
      (generic type count arguments).type := by
  -- the parts behind the lead byte, each one level deeper
  have hbody : Reads (fun c => do
      let type ← readType (roomAt (depth + 1)) c
      let count ← type.2.compressed
      let arguments ← Reader.times (readType (roomAt (depth + 1))) count.1 count.2
      return (.generic type.1 arguments.1, arguments.2))
      (type.bytes ++ (count.bytes ++ inSequence fun i => (arguments i).bytes))
      (generic type count arguments).type := by
    refine htype.bind ?_
    dsimp only
    refine count.reads.bind ?_
    dsimp only
    exact (Reads.times harguments).last fun _ => rfl
  have hread : Reads (readType (roomAt depth)) (generic type count arguments).bytes
      (generic type count arguments).type := by
    rw [roomAt_of_le hdepth, bytes, List.append_assoc]
    refine hbody.cons fun position rest => ?_
    rw [readType.eq_def]
    rfl
  exact hread.readIn (by decide) (by cases place <;> rfl)

/-- The result of a method is read two levels below it, and its parameters one. -/
theorem reads_method {header : MethodHeader} {result : TypeSyntax}
    (marked : Fin header.count.value → Bool) {parameters : Fin header.count.value → TypeSyntax}
    (hdepth : depth ≤ maxDepth)
    (hresult : Reads (readIn .result (depth + 2)) result.bytes result.type)
    (hparameters : ∀ i,
      Reads (readIn .parameter (depth + 1)) (parameters i).bytes (parameters i).type) :
    Reads (readIn place depth) (method header result marked parameters).bytes
      (method header result marked parameters).type := by
  have hbody : Reads (fun c => do
      let count ← readHeader c
      let result ← readResultWith (readType (roomAt (depth + 2))) count.2
      let parameters ←
        Reader.times (readParameterWith (readType (roomAt (depth + 1)))) count.1 result.2
      return (.method result.1 parameters.1, parameters.2))
      (header.bytes ++ (result.bytes ++
        inSequence fun i => markBytes (marked i) ++ (parameters i).bytes))
      (method header result marked parameters).type := by
    refine header.reads.bind ?_
    dsimp only
    refine hresult.bind ?_
    dsimp only
    exact (Reads.times fun i => (hparameters i).parameter (marked i)).last fun _ => rfl
  have hread : Reads (readType (roomAt depth)) (method header result marked parameters).bytes
      (method header result marked parameters).type := by
    -- the reader goes down twice for the result, which needs room for both levels
    rw [← readType_roomAt_add_two] at hbody
    rw [roomAt_of_le hdepth, bytes, List.append_assoc]
    refine hbody.cons fun position rest => ?_
    rw [readType.eq_def]
    rfl
  exact hread.readIn (by decide) (by cases place <;> rfl)

/-- A type that fits into a place at a depth is read there as what it stands for. -/
theorem reads_of_fitsAt {type : TypeSyntax} (h : type.FitsAt place depth) :
    Reads (readIn place depth) type.bytes type.type := by
  -- along the derivation, in every place and at every depth, since each rule has its parts elsewhere
  induction type generalizing place depth with
  | modified modifier type ih =>
    intro position tail
    rw [bytes, List.append_assoc, readIn_modifier, ih h, List.length_append, Nat.add_assoc]
    rfl
  | primitive type =>
    cases homits : place.omits type with
    | true => exact reads_primitive_of_omits homits
    | false => exact reads_primitive type (h.resolve_left (by simp [homits])) homits
  | wrapped wrapper target ih =>
    by_cases hresult : wrapper = .byRef ∧ place = .result
    · obtain ⟨rfl, rfl⟩ := hresult
      have hfits : target.FitsAt .inner depth := h
      exact reads_result_byRef (ih hfits)
    · obtain ⟨hdepth, hfits⟩ := (fitsAt_wrapped hresult depth).1 h
      exact reads_wrapped hresult hdepth (ih hfits)
  | named isValueType reference => exact reads_named isValueType reference h
  | genericParameter ofMethod number => exact reads_genericParameter ofMethod number h
  | array element rank sizes bounds ih => exact reads_array rank sizes bounds h.1 (ih h.2)
  | generic type count arguments ihType ihArguments =>
    obtain ⟨hdepth, htype, harguments⟩ := h
    exact reads_generic hdepth (ihType htype) fun i => ihArguments i (harguments i)
  | method header result marked parameters ihResult ihParameters =>
    obtain ⟨hdepth, hresult, hparameters⟩ := h
    exact reads_method marked hdepth (ihResult hresult) fun i => ihParameters i (hparameters i)

end TypeSyntax

end PublicAssembly.Signature
