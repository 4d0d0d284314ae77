import PublicAssembly.Proofs.Signature.Completeness

/-!
# The calls that reading a signature makes

Reading a signature goes down into the parts of a type and around loops whose numbers of rounds the
signature declares. A traced reading reads the same and keeps a record of everything that it calls:
every reader, every loop and every round of a loop, with the place where it starts, the place where
it ends, and for a reader of types the depth at which it is entered.

## Main definitions

* `Callee`, `Call`: what is called, and the record of a call;
* `Traced`: a reading together with the calls that it made;
* `Traced.ofSignature`: the traced reading of a signature.

## Main statements

* `Traced.result_readType`: a type is read in the same way with and without a record;
* `Traced.result_ofSignature`: and so is a signature.
-/

namespace PublicAssembly

open Image (Fault)
open Metadata (CodedIndex)
open Signature (roomAt)

/-- What is called while a signature is read. -/
inductive Callee where
  /-- A look at the byte at the cursor. -/
  | peek
  /-- The reader of a byte. -/
  | byte
  /-- The reader of a compressed integer. -/
  | number
  /-- The reader of a header. -/
  | header
  /-- The reader of a reference to a row. -/
  | reference
  /-- The loop that passes the custom modifiers at the cursor. -/
  | modifiers
  /-- A round of that loop, which passes one modifier. -/
  | modifier
  /-- The reader of a return type. -/
  | result (depth : Nat)
  /-- The reader of the type of a parameter. -/
  | parameter (depth : Nat)
  /-- The reader of a type. -/
  | type (depth : Nat)
  /-- The reader of what stands behind the header of a pointer to a method. The header declares the
  number of parameters. -/
  | method (count : Nat)
  /-- A loop that reads as many items as the signature declares: sizes or lower bounds of an array,
  arguments of a generic type, or parameters of a pointer to a method. -/
  | items (count : Nat)
  /-- A round of that loop, which reads one item. -/
  | item
  deriving DecidableEq, Repr

/-- The record of a call. -/
structure Call where
  /-- What is called. -/
  callee : Callee
  /-- The number of bytes before the cursor when the call begins. -/
  start : Nat
  /-- The number of bytes before the cursor when the call ends; `none` if it fails. -/
  stop : Option Nat
  deriving DecidableEq, Repr

/-- A reading together with the calls that it made, in the order in which they ended. -/
structure Traced (α : Type) where
  /-- The calls. -/
  calls : List Call
  /-- What was read. -/
  result : Except Fault α

/-- A traced reader of one item. -/
abbrev TracedReader (α : Type) : Type := Cursor → Traced (α × Cursor)

namespace Traced

variable {α β : Type}

/-! ### Steps -/

/-- A value that is given without a call. -/
def give (a : α) : Traced α :=
  ⟨[], .ok a⟩

/-- A fault that is met without a call. -/
def fail (fault : Fault) : Traced α :=
  ⟨[], .error fault⟩

/-- One reading after another: the second one makes no calls if the first one fails. -/
def andThen (first : Traced α) (next : α → Traced β) : Traced β :=
  match first.result with
  | .error fault => ⟨first.calls, .error fault⟩
  | .ok a => ⟨first.calls ++ (next a).calls, (next a).result⟩

instance : Monad Traced where
  pure := give
  bind := andThen

/-- A result whose value is known to be what the result is. -/
def attachResult : (result : Except Fault α) → Except Fault { a // result = .ok a }
  | .error fault => .error fault
  | .ok a => .ok ⟨a, rfl⟩

/-- A reading whose value is known to be what was read. -/
def attach (run : Traced α) : Traced { a // run.result = .ok a } :=
  ⟨run.calls, attachResult run.result⟩

/-- Where the cursor stands behind what was read. -/
def stop (run : Traced (α × Cursor)) : Option Nat :=
  match run.result with
  | .error _ => none
  | .ok (_, c) => some c.position

/-- Call a reader, and put the call on record. -/
def call (callee : Callee) (read : TracedReader α) : TracedReader α := fun c =>
  let run := read c
  ⟨run.calls ++ [⟨callee, c.position, run.stop⟩], run.result⟩

/-! ### Readers -/

/-- Look at the byte at the cursor. -/
def peek : TracedReader UInt8 :=
  call .peek fun c => ⟨[], c.peek.map fun b => (b, c)⟩

/-- Read one byte. -/
def next : TracedReader UInt8 :=
  call .byte fun c => ⟨[], c.next⟩

/-- Read a compressed integer. -/
def compressed : TracedReader Nat :=
  call .number fun c => ⟨[], c.compressed⟩

/-- Read `count` items one after another. -/
def times (read : TracedReader α) : Nat → TracedReader (List α)
  | 0, c => return ([], c)
  | count + 1, c => do
    let (item, c) ← call .item read c
    let (rest, c) ← times read count c
    return (item :: rest, c)

/-- Read as many items as the signature declares. -/
def items (read : TracedReader α) (count : Nat) : TracedReader (List α) :=
  call (.items count) (times read count)

/-- Pass the header of a method signature, and give the number of parameters. -/
def readHeader : TracedReader Nat := call .header fun c => do
  let (convention, c) ← next c
  if convention.toNat.testBit SigType.genericBit then
    let (_, c) ← compressed c
    compressed c
  else
    compressed c

/-- Pass one custom modifier. -/
def modifier : TracedReader Unit := call .modifier fun c => do
  let (_, c) ← next c
  let (_, c) ← compressed c
  return ((), c)

/-- A reading after another one has the result that it has for what the first one gave. -/
theorem result_bind (first : Traced α) (next : α → Traced β) :
    (first >>= next).result = first.result >>= fun a => (next a).result := by
  show (first.andThen next).result = _
  rw [andThen]
  cases first.result <;> rfl

@[simp]
theorem result_call (callee : Callee) (read : TracedReader α) (c : Cursor) :
    (call callee read c).result = (read c).result := rfl

/-- Passing a modifier takes at least one byte. -/
theorem length_rest_modifier {c : Cursor} {found : Unit × Cursor}
    (h : (modifier c).result = .ok found) : found.2.rest.length < c.rest.length := by
  rw [modifier, result_call, result_bind, Reading.bind_eq_ok_iff] at h
  obtain ⟨⟨b, d⟩, hnext, h⟩ := h
  rw [result_bind, Reading.bind_eq_ok_iff] at h
  obtain ⟨⟨n, e⟩, hcompressed, h⟩ := h
  cases h
  have hbyte : d.rest.length + 1 = c.rest.length := Cursor.length_rest_next hnext
  have hnumber : e.rest.length < d.rest.length := Cursor.length_rest_compressed hcompressed
  exact Nat.lt_trans hnumber (by omega)

/-- Pass modifiers as long as there is one at the cursor. -/
def passModifiers (c : Cursor) : Traced (Unit × Cursor) := do
  let (element, _) ← peek c
  if element = 0x1F ∨ element = 0x20 then
    let passed ← (modifier c).attach
    passModifiers passed.val.2
  else
    return ((), c)
termination_by c.rest.length
decreasing_by exact length_rest_modifier passed.property

/-- Pass the custom modifiers at the cursor. -/
def skipModifiers : TracedReader Unit :=
  call .modifiers passModifiers

/-- Read a reference to a row that names a type. -/
def readNamed : TracedReader SigType := call .reference fun c => do
  let (value, c) ← compressed c
  match CodedIndex.typeDefOrRef.decode value with
  | none => fail (.malformed (.badTypeReference value))
  | some (table, row) => return (.named table row, c)

/-- Read a return type at a depth, whose own type is read by `inner`. -/
def readResultWith (depth : Nat) (inner : TracedReader SigType) : TracedReader SigType :=
  call (.result depth) fun c => do
    let (_, c) ← skipModifiers c
    let (element, c) ← peek c
    if element = 0x01 then
      let (_, c) ← next c
      return (.void, c)
    else if element = 0x10 then
      let (_, c) ← next c
      let (target, c) ← inner c
      return (.byRef target, c)
    else
      inner c

/-- Read the type of a parameter at a depth, whose own type is read by `inner`. -/
def readUnmarkedWith (depth : Nat) (inner : TracedReader SigType) : TracedReader SigType :=
  call (.parameter depth) fun c => do
    let (_, c) ← skipModifiers c
    let (element, c) ← peek c
    if element = 0x16 then
      let (_, c) ← next c
      return (.primitive .typedReference, c)
    else
      inner c

/-- Read a parameter of a pointer to a method at a depth. A mark may stand before it. -/
def readParameterWith (depth : Nat) (inner : TracedReader SigType) :
    TracedReader (Bool × SigType) := fun c => do
  let (element, c) ← peek c
  if element = 0x41 then
    let (_, c) ← next c
    let (type, c) ← readUnmarkedWith depth inner c
    return ((true, type), c)
  else
    let (type, c) ← readUnmarkedWith depth inner c
    return ((false, type), c)

/-- Read the result and the parameters of a pointer to a method at a depth, whose header declares
`count` parameters. -/
def readMethodWith (depth : Nat) (result parameter : TracedReader SigType) (count : Nat) :
    TracedReader SigType := call (.method count) fun c => do
  let (type, c) ← readResultWith depth result c
  let (parameters, c) ← items (readParameterWith depth parameter) count c
  return (.method type parameters, c)

/-- Read a type at a depth. -/
def readType (depth : Nat) : TracedReader SigType := call (.type depth) fun c =>
  if SigType.maxDepth < depth then fail (.malformed .signatureTooDeep)
  else do
    let (_, c) ← skipModifiers c
    let (element, c) ← next c
    match element with
    | 0x0F => do
      let (target, c) ← readType (depth + 1) c
      return (.pointer target, c)
    | 0x10 => do
      let (target, c) ← readType (depth + 1) c
      return (.byRef target, c)
    | 0x11 => readNamed c
    | 0x12 => readNamed c
    | 0x13 => do
      let (number, c) ← compressed c
      return (.typeVariable number, c)
    | 0x14 => do
      let (element, c) ← readType (depth + 1) c
      let (rank, c) ← compressed c
      let (sizes, c) ← compressed c
      let (_, c) ← items compressed sizes c
      let (bounds, c) ← compressed c
      let (_, c) ← items compressed bounds c
      return (.array element rank, c)
    | 0x15 => do
      let (type, c) ← readType (depth + 1) c
      let (count, c) ← compressed c
      let (arguments, c) ← items (readType (depth + 1)) count c
      return (.generic type arguments, c)
    | 0x1B => do
      let (count, c) ← readHeader c
      -- the type of the result is nested two levels deeper
      readMethodWith (depth + 1) (readType (depth + 2)) (readType (depth + 1)) count c
    | 0x1D => do
      let (element, c) ← readType (depth + 1) c
      return (.vector element, c)
    | 0x1E => do
      let (number, c) ← compressed c
      return (.methodVariable number, c)
    | 0x45 => do
      let (type, c) ← readType (depth + 1) c
      return (.pinned type, c)
    | _ =>
      match Primitive.ofElement? element with
      | some type => return (.primitive type, c)
      | none => fail (.malformed (.unknownElement element.toNat))
termination_by SigType.maxDepth + 1 - depth

/-- Read the return type of a method signature. -/
def ofSignature (blob : List UInt8) : Traced (SigType × Cursor) := do
  let (_, c) ← readHeader (Cursor.start blob)
  readResultWith 0 (readType 1) c

/-! ### The record changes nothing -/

/-- Readings in two steps have equal results if both steps do. -/
theorem result_bind_eq {run : Traced α} {read : Except Fault α} {next : α → Traced β}
    {follow : α → Except Fault β} (h : run.result = read)
    (hnext : ∀ a, (next a).result = follow a) : (run >>= next).result = read >>= follow := by
  rw [result_bind, h]
  exact bind_congr hnext

/-- Readings that go two ways have equal results if they do on each. -/
theorem result_ite {p : Prop} [Decidable p] {run₁ run₂ : Traced α} {read₁ read₂ : Except Fault α}
    (h₁ : p → run₁.result = read₁) (h₂ : ¬p → run₂.result = read₂) :
    (if p then run₁ else run₂).result = if p then read₁ else read₂ := by
  by_cases hp : p
  · rw [if_pos hp, if_pos hp, h₁ hp]
  · rw [if_neg hp, if_neg hp, h₂ hp]

/-- That a value is known to be what was read makes no difference. -/
theorem attach_bind (run : Traced α) (next : α → Traced β) :
    (run.attach >>= fun a => next a.val) = run >>= next := by
  obtain ⟨calls, result⟩ := run
  cases result <;> rfl

theorem result_peek_bind (c : Cursor) (next : UInt8 × Cursor → Traced α) :
    (peek c >>= next).result = c.peek >>= fun b => (next (b, c)).result := by
  rw [result_bind]
  show c.peek.map _ >>= _ = _
  cases c.peek <;> rfl

/-- A loop passes a modifier and goes on, or there is none at the cursor. -/
theorem passModifiers_eq (c : Cursor) :
    passModifiers c = peek c >>= fun found =>
      if found.1 = 0x1F ∨ found.1 = 0x20 then
        modifier c >>= fun passed => passModifiers passed.2
      else give ((), c) := by
  rw [passModifiers]
  refine congrArg (peek c >>= ·) (funext fun found => ?_)
  obtain ⟨element, d⟩ := found
  dsimp only
  split_ifs
  · exact attach_bind (modifier c) fun passed => passModifiers passed.2
  · rfl

/-- Passing a modifier is passing its first byte and the number behind it. -/
theorem result_modifier (position : Nat) (lead : UInt8) (rest : List UInt8) :
    (modifier ⟨position, lead :: rest⟩).result =
      Cursor.compressed ⟨position + 1, rest⟩ >>= fun found => .ok ((), found.2) := by
  rw [modifier, result_call, result_bind]
  exact result_bind_eq rfl fun _ => rfl

theorem result_passModifiers {limit : Nat} {c : Cursor} (h : c.rest.length ≤ limit) :
    (passModifiers c).result =
      (SigType.skipModifiersUpTo limit c).map fun d => ((), d) := by
  induction limit generalizing c with
  | zero =>
    obtain ⟨position, rest⟩ := c
    obtain rfl : rest = [] := List.eq_nil_of_length_eq_zero (Nat.le_zero.1 h)
    rw [passModifiers_eq, result_peek_bind]
    rfl
  | succ limit ih =>
    obtain ⟨position, rest⟩ := c
    rw [passModifiers_eq, result_peek_bind]
    cases rest with
    | nil => rfl
    | cons lead rest =>
      rw [Signature.skipModifiersUpTo_succ]
      by_cases hmodifier : lead = 0x1F ∨ lead = 0x20
      · show (if lead = 0x1F ∨ lead = 0x20 then _ else _ : Traced _).result = _
        rw [if_pos hmodifier, if_pos hmodifier, result_bind, result_modifier]
        cases hread : Cursor.compressed ⟨position + 1, rest⟩ with
        | error fault => rfl
        | ok found =>
          -- the modifier takes bytes, so that a smaller bound is enough for those behind it
          have hshorter : found.2.rest.length < rest.length := Cursor.length_rest_compressed hread
          rw [List.length_cons] at h
          have hlimit : found.2.rest.length ≤ limit := by omega
          exact ih hlimit
      · show (if lead = 0x1F ∨ lead = 0x20 then _ else _ : Traced _).result = _
        rw [if_neg hmodifier, if_neg hmodifier]
        rfl

theorem result_skipModifiers_bind (c : Cursor) (next : Unit × Cursor → Traced α) :
    (skipModifiers c >>= next).result =
      SigType.skipModifiers c >>= fun d => (next ((), d)).result := by
  rw [result_bind, skipModifiers, result_call, result_passModifiers (Nat.le_refl _)]
  show (SigType.skipModifiers c).map _ >>= _ = _
  cases SigType.skipModifiers c <;> rfl

theorem result_readHeader (c : Cursor) : (readHeader c).result = SigType.readHeader c := by
  refine result_bind_eq rfl fun convention => ?_
  refine result_ite (fun _ => ?_) fun _ => rfl
  exact result_bind_eq rfl fun _ => rfl

theorem result_readNamed (c : Cursor) : (readNamed c).result = SigType.readNamed c := by
  refine result_bind_eq rfl fun found => ?_
  dsimp only
  rcases CodedIndex.typeDefOrRef.decode found.1 with _ | ⟨table, row⟩ <;> rfl

section Parts

variable {read : TracedReader α} {plain : Reader α}

theorem result_items (h : ∀ c, (read c).result = plain c) (count : Nat) (c : Cursor) :
    (items read count c).result = Reader.times plain count c := by
  show (times read count c).result = _
  induction count generalizing c with
  | zero => rfl
  | succ count ih =>
    rw [times, Reader.times]
    refine result_bind_eq (h c) fun found => ?_
    exact result_bind_eq (ih found.2) fun _ => rfl

variable {inner : TracedReader SigType} {plainInner : Reader SigType}

theorem result_readResultWith (h : ∀ c, (inner c).result = plainInner c) (depth : Nat)
    (c : Cursor) :
    (readResultWith depth inner c).result = SigType.readResultWith plainInner c := by
  rw [readResultWith, result_call, result_skipModifiers_bind, SigType.readResultWith]
  refine bind_congr fun d => ?_
  dsimp only
  rw [result_peek_bind]
  refine bind_congr fun element => ?_
  refine result_ite (fun _ => ?_) fun _ => result_ite (fun _ => ?_) fun _ => h d
  · exact result_bind_eq rfl fun _ => rfl
  · refine result_bind_eq rfl fun passed => ?_
    exact result_bind_eq (h passed.2) fun _ => rfl

theorem result_readUnmarkedWith (h : ∀ c, (inner c).result = plainInner c) (depth : Nat)
    (c : Cursor) :
    (readUnmarkedWith depth inner c).result = Signature.readUnmarkedWith plainInner c := by
  rw [readUnmarkedWith, result_call, result_skipModifiers_bind, Signature.readUnmarkedWith]
  refine bind_congr fun d => ?_
  dsimp only
  rw [result_peek_bind]
  refine bind_congr fun element => ?_
  refine result_ite (fun _ => ?_) fun _ => h d
  exact result_bind_eq rfl fun _ => rfl

theorem result_readParameterWith (h : ∀ c, (inner c).result = plainInner c) (depth : Nat)
    (c : Cursor) :
    (readParameterWith depth inner c).result = SigType.readParameterWith plainInner c := by
  obtain ⟨position, rest⟩ := c
  rw [readParameterWith, result_peek_bind]
  cases rest with
  | nil => rfl
  | cons lead rest =>
    rw [Signature.readParameterWith_eq]
    show (if lead = 0x41 then _ else _ : Traced _).result = _
    -- without the records the two readers pass the mark alike
    by_cases hmark : lead = 0x41
    · rw [if_pos hmark, if_pos hmark, beq_iff_eq.2 hmark]
      exact result_bind_eq (result_readUnmarkedWith h depth _) fun _ => rfl
    · rw [if_neg hmark, if_neg hmark, beq_eq_false_iff_ne.2 hmark]
      exact result_bind_eq (result_readUnmarkedWith h depth _) fun _ => rfl

end Parts

/-- A type is read in the same way with and without a record. -/
theorem result_readType (depth : Nat) (c : Cursor) :
    (readType depth c).result = SigType.readType (roomAt depth) c := by
  induction hroom : roomAt depth using Nat.strongRecOn generalizing depth c with
  | ind room ih =>
    subst hroom
    rw [readType, result_call]
    by_cases hdeep : SigType.maxDepth < depth
    · have hnone : roomAt depth = 0 := Nat.sub_eq_zero_of_le hdeep
      rw [if_pos hdeep, hnone]
      rfl
    have hdepth := Nat.le_of_not_lt hdeep
    have hdeeper (deeper : Nat) (hlt : depth < deeper) (c : Cursor) :
        (readType deeper c).result = SigType.readType (roomAt deeper) c :=
      ih _ (Signature.roomAt_lt hdepth hlt) deeper c rfl
    have hpart (c : Cursor) := hdeeper (depth + 1) (by omega) c
    rw [if_neg hdeep, Signature.roomAt_of_le hdepth, result_skipModifiers_bind,
      SigType.readType.eq_def]
    refine bind_congr fun d => result_bind_eq rfl fun found => ?_
    obtain ⟨element, c⟩ := found
    dsimp only
    -- one case for each element that is known, and the last one for those that are a whole type
    split
    · exact result_bind_eq (hpart c) fun _ => rfl
    · exact result_bind_eq (hpart c) fun _ => rfl
    · exact result_readNamed c
    · exact result_readNamed c
    · exact result_bind_eq rfl fun _ => rfl
    · refine result_bind_eq (hpart c) fun element => ?_
      refine result_bind_eq rfl fun rank => ?_
      refine result_bind_eq rfl fun sizes => ?_
      refine result_bind_eq (result_items (fun _ => rfl) sizes.1 sizes.2) fun behind => ?_
      refine result_bind_eq rfl fun bounds => ?_
      exact result_bind_eq (result_items (fun _ => rfl) bounds.1 bounds.2) fun _ => rfl
    · refine result_bind_eq (hpart c) fun type => ?_
      refine result_bind_eq rfl fun count => ?_
      exact result_bind_eq (result_items hpart count.1 count.2) fun _ => rfl
    · refine result_bind_eq (result_readHeader c) fun count => ?_
      rw [readMethodWith, result_call]
      have hresult := result_readResultWith (hdeeper (depth + 2) (by omega)) (depth + 1) count.2
      rw [← Signature.readType_roomAt_add_two] at hresult
      refine result_bind_eq hresult fun result => ?_
      have hparameter := result_readParameterWith hpart (depth + 1)
      exact result_bind_eq (result_items hparameter count.1 result.2) fun _ => rfl
    · exact result_bind_eq (hpart c) fun _ => rfl
    · exact result_bind_eq rfl fun _ => rfl
    · exact result_bind_eq (hpart c) fun _ => rfl
    · -- none of the elements above, which may have to be said of the plain reader once more
      rcases Primitive.ofElement? element with _ | type
      all_goals
        dsimp only
        try split
        all_goals first | contradiction | rfl

/-- A signature is read in the same way with and without a record. -/
theorem result_ofSignature (blob : List UInt8) :
    (ofSignature blob).result.map Prod.fst = SigType.ofSignature blob := by
  have hread : (ofSignature blob).result =
      SigType.readHeader (Cursor.start blob) >>= fun found =>
        SigType.readResultWith (SigType.readType SigType.maxDepth) found.2 :=
    result_bind_eq (result_readHeader _) fun found =>
      result_readResultWith (result_readType 1) 0 found.2
  rw [hread, SigType.ofSignature]
  cases SigType.readHeader (Cursor.start blob) with
  | error fault => rfl
  | ok found =>
    show (SigType.readResultWith (SigType.readType SigType.maxDepth) found.2).map Prod.fst =
      SigType.readResultWith (SigType.readType SigType.maxDepth) found.2 >>= _
    cases SigType.readResultWith (SigType.readType SigType.maxDepth) found.2 <;> rfl

end Traced

end PublicAssembly
