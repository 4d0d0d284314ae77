import PublicAssembly.Proofs.Machine.Bytes
import PublicAssembly.Signature.Decode

/-!
# Signatures on a machine

A signature is read and written down in one go: every type becomes its text as soon as it was read,
and the names of rows are looked up on the way. Types nest no deeper than a bound, and every
modifier takes bytes, so a number of rounds that is known beforehand is enough for every loop.
-/

namespace PublicAssembly.Machine

open Image (Fault)
open Metadata (Table CodedIndex)

/-! ### Coded indexes -/

/-- The table and the row that a stored value names, `none` when its tag is unused. -/
def decodeIndex (kind : CodedIndex) (value : Nat) : Checked (Option (Table × Nat)) := do
  let top ← shiftLeft 32 1 kind.tagBits
  let mask ← sub top 1
  match kind.tables[value &&& mask]? with
  | some (some table) =>
    let row ← shiftRight 32 value kind.tagBits
    return some (table, row)
  | _ => return none

theorem decodeIndex_eq (kind : CodedIndex) (value : Nat) :
    decodeIndex kind value = .ok (kind.decode value) := by
  have hbits : kind.tagBits ≤ 5 := by cases kind <;> decide
  have htop : 1 <<< kind.tagBits < 2 ^ 32 := by
    rw [Nat.one_shiftLeft]
    exact Nat.pow_lt_pow_right (by omega) (by omega)
  have hpos := Nat.two_pow_pos kind.tagBits
  rw [decodeIndex, shiftLeft_eq (by omega) htop, Reading.ok_bind, Nat.one_shiftLeft,
    sub_eq hpos, Reading.ok_bind, Nat.and_two_pow_sub_one_eq_mod, CodedIndex.decode,
    Nat.one_shiftLeft]
  -- the tag lies behind the tables, or it is unused, or it stands for a table
  rcases kind.tables[value % 2 ^ kind.tagBits]? with _ | _ | table
  · rfl
  · rfl
  · dsimp only
    rw [shiftRight_eq (by omega)]
    rfl

/-! ### Reading signatures -/

/-- How rows that name types are written. -/
abbrev TypeNames :=
  Table → Nat → Checked (Option String)

/-- Read `count` items one after another. -/
def Reader.times {α : Type} (read : Reader α) : Nat → Reader (List α)
  | 0, c => .ok ([], c)
  | count + 1, c => do
    let (item, c) ← read c
    let (rest, c) ← read.times count c
    return (item :: rest, c)

/-- Pass the header of a method signature, and give the number of parameters. -/
def readHeader : Reader Nat := fun c => do
  let (convention, c) ← c.next
  if convention.toNat.testBit SigType.genericBit then
    let (_, c) ← c.compressed
    c.compressed
  else
    c.compressed

/-- Pass the custom modifiers at the cursor, in so many rounds. -/
def skipModifiersIn : (rounds : Nat) → Cursor → Checked Cursor
  | 0, _ => .error .endless
  | rounds + 1, c => do
    let element ← c.peek
    if element = 0x1F ∨ element = 0x20 then
      let (_, c) ← c.next
      let (_, c) ← c.compressed
      skipModifiersIn rounds c
    else
      return c

/-- Pass the custom modifiers at the cursor. -/
def skipModifiers (c : Cursor) : Checked Cursor :=
  skipModifiersIn (c.data.size + 1) c

/-- Read a reference to a row that names a type, and write its name. -/
def readNamed (names : TypeNames) : Reader String := fun c => do
  let (value, c) ← c.compressed
  match ← decodeIndex .typeDefOrRef value with
  | none => .error (.fault (.malformed (.badTypeReference value)))
  | some (table, row) =>
    match ← names table row with
    | some name => return (name, c)
    | none => return ("type#" ++ Text.hex table 2 ++ s!":{row}", c)

/-- Read a return type at a depth, whose own type is read by `read` one level deeper. -/
def readResultWith (read : (depth : Nat) → Reader String) (depth : Nat) : Reader String :=
  fun c => do
    let c ← skipModifiers c
    let element ← c.peek
    if element = 0x01 then
      let (_, c) ← c.next
      return ("void", c)
    else if element = 0x10 then
      let (_, c) ← c.next
      let below ← add 64 depth 1
      let (target, c) ← read below c
      return (target ++ "&", c)
    else
      let below ← add 64 depth 1
      read below c

/-- Read a parameter of a pointer to a method at a depth, whose own type is read by `read` one level
deeper, and put `mark` before it. -/
def readMarkedWith (read : (depth : Nat) → Reader String) (depth : Nat) (mark : List String) :
    Reader (List String) := fun c => do
  let below ← add 64 depth 1
  let c ← skipModifiers c
  let element ← c.peek
  if element = 0x16 then
    let (_, c) ← c.next
    return (mark ++ ["typedref"], c)
  else
    let (type, c) ← read below c
    return (mark ++ [type], c)

/-- Read a parameter of a pointer to a method. A mark before it is a text of its own. -/
def readParameterWith (read : (depth : Nat) → Reader String) (depth : Nat) : Reader (List String) :=
  fun c => do
    let element ← c.peek
    if element = 0x41 then
      let (_, c) ← c.next
      readMarkedWith read depth ["..."] c
    else
      readMarkedWith read depth [] c

/-- So many commas. The bytes that they take are counted before. -/
def commas (count : Nat) : Checked String := do
  let _ ← mul 64 ','.utf8Size count
  return String.ofList (List.replicate count ',')

/-- Read a type at a depth, in so many rounds. -/
def readType (names : TypeNames) : (rounds depth : Nat) → Reader String
  | 0, _, _ => .error .endless
  | rounds + 1, depth, c =>
    if SigType.maxDepth < depth then .error (.fault (.malformed .signatureTooDeep))
    else do
      let below : Reader String := fun c => do
        let below ← add 64 depth 1
        readType names rounds below c
      let c ← skipModifiers c
      let (element, c) ← c.next
      match element with
      | 0x0F => do
        let (target, c) ← below c
        return (target ++ "*", c)
      | 0x10 => do
        let (target, c) ← below c
        return (target ++ "&", c)
      | 0x11 => readNamed names c
      | 0x12 => readNamed names c
      | 0x13 => do
        let (number, c) ← c.compressed
        return (s!"!{number}", c)
      | 0x14 => do
        let (element, c) ← below c
        let (rank, c) ← c.compressed
        let (sizes, c) ← c.compressed
        let (_, c) ← Reader.times Cursor.compressed sizes c
        let (bounds, c) ← c.compressed
        let (_, c) ← Reader.times Cursor.compressed bounds c
        let between ← commas (rank - 1)
        return (element ++ "[" ++ between ++ "]", c)
      | 0x15 => do
        let (type, c) ← below c
        let (count, c) ← c.compressed
        let (arguments, c) ← Reader.times below count c
        return (type ++ "<" ++ commaSeparated arguments ++ ">", c)
      | 0x1B => do
        let (count, c) ← readHeader c
        -- one level for the method, and its result goes down once more
        let deeper ← add 64 depth 1
        let (result, c) ← readResultWith (readType names rounds) deeper c
        let (parameters, c) ← Reader.times (readParameterWith (readType names rounds) depth) count c
        return ("method " ++ result ++ " *(" ++ commaSeparated parameters.flatten ++ ")", c)
      | 0x1D => do
        let (element, c) ← below c
        return (element ++ "[]", c)
      | 0x1E => do
        let (number, c) ← c.compressed
        return (s!"!!{number}", c)
      | 0x45 => do
        let (type, c) ← below c
        return (type ++ " pinned", c)
      | _ =>
        match Primitive.ofElement? element with
        | some type => return (type.name, c)
        | none => .error (.fault (.malformed (.unknownElement element.toNat)))

/-- How the return type of a method signature is written. -/
def returnType (names : TypeNames) (blob : Bytes) : Checked String := do
  let (_, c) ← readHeader ⟨blob, 0⟩
  let (type, _) ← readResultWith (readType names (SigType.maxDepth + 2)) 0 c
  return type

/-! ### Reading on a machine reads the same -/

section Parts

variable {data : Bytes} {α β : Type}

/-- Items one after another agree if each of them does, wherever it stands. -/
theorem Agrees.times {edit : β → α} {checked : Reader α} {read : PublicAssembly.Reader β}
    (h : ∀ position ≤ data.size,
      Agrees data edit (checked ⟨data, position⟩) (read (plainAt data position)))
    (count : Nat) {position : Nat} (hle : position ≤ data.size) :
    Agrees data (List.map edit) (checked.times count ⟨data, position⟩)
      (read.times count (plainAt data position)) := by
  induction count generalizing position with
  | zero => exact .ok hle rfl
  | succ count ih =>
    rw [Reader.times, PublicAssembly.Reader.times]
    refine .bind (h position hle) fun item position hle _ => ?_
    refine .bind (ih hle) fun items position hle _ => ?_
    exact .ok hle rfl

theorem agrees_readHeader (hdata : data.size < 2 ^ 32) (position : Nat) :
    Agrees data id (readHeader ⟨data, position⟩) (SigType.readHeader (plainAt data position)) := by
  rw [readHeader, SigType.readHeader]
  refine .bind (agrees_next hdata position) fun convention position _ _ => ?_
  refine .ite (fun _ => ?_) fun _ => agrees_compressed hdata position
  exact .bind (agrees_compressed hdata position) fun _ position _ _ =>
    agrees_compressed hdata position

/-- What stands behind the modifiers agrees if it does wherever it stands. Each modifier takes a
byte and more, so that there are neither rounds nor bytes for more of them than there are. -/
theorem Agrees.skipModifiersIn_bind (hdata : data.size < 2 ^ 32) {edit : β → α}
    {next : Cursor → Checked (α × Cursor)}
    {follow : PublicAssembly.Cursor → Except Fault (β × PublicAssembly.Cursor)}
    (h : ∀ position ≤ data.size, Agrees data edit (next ⟨data, position⟩)
      (follow (plainAt data position)))
    {rounds limit position : Nat} (hle : position ≤ data.size)
    (hrounds : data.size - position < rounds) (hlimit : data.size - position ≤ limit) :
    Agrees data edit (skipModifiersIn rounds ⟨data, position⟩ >>= next)
      (SigType.skipModifiersUpTo limit (plainAt data position) >>= follow) := by
  induction rounds generalizing limit position with
  | zero => omega
  | succ rounds ih =>
    rw [skipModifiersIn, SigType.skipModifiersUpTo.eq_def, peek_eq hdata, bind_assoc, bind_assoc]
    refine .lift_bind fun element helement => ?_
    by_cases hmark : element = 0x1F ∨ element = 0x20
    · rw [if_pos hmark, if_pos hmark]
      cases limit with
      | zero =>
        -- no bytes are left, and so there was no mark
        have hend : (plainAt data position).rest = [] := rest_plainAt_of_le (by omega)
        rw [PublicAssembly.Cursor.peek, hend] at helement
        cases helement
      | succ limit =>
        dsimp only
        rw [bind_assoc, bind_assoc]
        refine .bind (agrees_next hdata position) fun byte second hsecond hnext => ?_
        dsimp only
        rw [bind_assoc, bind_assoc]
        refine .bind (agrees_compressed hdata second) fun number third hthird hcompressed => ?_
        have hbyte := Cursor.length_rest_next hnext
        have hnumber := Cursor.length_rest_compressed hcompressed
        rw [length_rest_plainAt, length_rest_plainAt] at hbyte hnumber
        exact ih hthird (by omega) (by omega)
    · rw [if_neg hmark, if_neg hmark]
      exact h position hle

theorem Agrees.skipModifiers_bind (hdata : data.size < 2 ^ 32) {edit : β → α}
    {next : Cursor → Checked (α × Cursor)}
    {follow : PublicAssembly.Cursor → Except Fault (β × PublicAssembly.Cursor)}
    (h : ∀ position ≤ data.size, Agrees data edit (next ⟨data, position⟩)
      (follow (plainAt data position)))
    {position : Nat} (hle : position ≤ data.size) :
    Agrees data edit (skipModifiers ⟨data, position⟩ >>= next)
      (SigType.skipModifiers (plainAt data position) >>= follow) := by
  refine .skipModifiersIn_bind hdata h hle (Nat.lt_succ_of_le (Nat.sub_le _ _)) ?_
  exact Nat.le_of_eq (length_rest_plainAt position).symm

end Parts

section Types

variable {data : Bytes} {names : TypeNames} {plainNames : PublicAssembly.TypeNames}

theorem agrees_readNamed (hdata : data.size < 2 ^ 32)
    (hnames : ∀ table row, names table row = .ok (plainNames table row)) (position : Nat) :
    Agrees data (SigType.render plainNames) (readNamed names ⟨data, position⟩)
      (SigType.readNamed (plainAt data position)) := by
  rw [readNamed, SigType.readNamed]
  refine .bind (agrees_compressed hdata position) fun value position hle _ => ?_
  dsimp only [id]
  rw [decodeIndex_eq, Reading.ok_bind]
  rcases CodedIndex.typeDefOrRef.decode value with _ | ⟨table, row⟩
  · exact .fault _
  · dsimp only
    rw [hnames, Reading.ok_bind]
    -- a row without a name is shown in the same way on both sides
    have hshow : SigType.render plainNames (.named table row) = plainNames.show table row := by
      rw [SigType.render]
    rw [TypeNames.show] at hshow
    rcases hname : plainNames table row with _ | name
    · rw [hname] at hshow
      exact .ok hle hshow
    · rw [hname] at hshow
      exact .ok hle hshow

variable {read : (depth : Nat) → Reader String} {inner : PublicAssembly.Reader SigType}
  {depth : Nat}

theorem agrees_readResultWith (hdata : data.size < 2 ^ 32) (hdepth : depth + 1 < 2 ^ 64)
    (h : ∀ position ≤ data.size, Agrees data (SigType.render plainNames)
      (read (depth + 1) ⟨data, position⟩) (inner (plainAt data position)))
    {position : Nat} (hle : position ≤ data.size) :
    Agrees data (SigType.render plainNames) (readResultWith read depth ⟨data, position⟩)
      (SigType.readResultWith inner (plainAt data position)) := by
  rw [readResultWith, SigType.readResultWith]
  refine .skipModifiers_bind hdata (fun position hle => ?_) hle
  rw [peek_eq hdata, add_eq hdepth]
  refine .lift_bind fun element _ => .ite (fun _ => ?_) fun _ => .ite (fun _ => ?_) fun _ => ?_
  · refine .bind (agrees_next hdata position) fun _ position hle _ => ?_
    exact .ok hle (by rw [SigType.void, SigType.render, Primitive.name])
  · refine .bind (agrees_next hdata position) fun _ position hle _ => ?_
    refine .bind (h position hle) fun target position hle _ => ?_
    exact .ok hle (by rw [SigType.render])
  · exact h position hle

/-- How a parameter is written; a mark before it is a text of its own. -/
def parameterTexts (plainNames : PublicAssembly.TypeNames) (parameter : Bool × SigType) :
    List String :=
  (if parameter.1 then ["..."] else []) ++ [parameter.2.render plainNames]

theorem agrees_readMarkedWith (hdata : data.size < 2 ^ 32) (hdepth : depth + 1 < 2 ^ 64)
    (h : ∀ position ≤ data.size, Agrees data (SigType.render plainNames)
      (read (depth + 1) ⟨data, position⟩) (inner (plainAt data position)))
    (marked : Bool) {position : Nat} (hle : position ≤ data.size) :
    Agrees data (parameterTexts plainNames)
      (readMarkedWith read depth (if marked then ["..."] else []) ⟨data, position⟩) (do
        let c ← SigType.skipModifiers (plainAt data position)
        let element ← c.peek
        if element = 0x16 then
          let (_, c) ← c.next
          return ((marked, .primitive .typedReference), c)
        else
          let (type, c) ← inner c
          return ((marked, type), c)) := by
  rw [readMarkedWith, add_eq hdepth]
  refine .skipModifiers_bind hdata (fun position hle => ?_) hle
  rw [peek_eq hdata]
  refine .lift_bind fun element _ => .ite (fun _ => ?_) fun _ => ?_
  · refine .bind (agrees_next hdata position) fun _ position hle _ => ?_
    exact .ok hle (by rw [parameterTexts, SigType.render, Primitive.name])
  · exact .bind (h position hle) fun type position hle _ => .ok hle rfl

theorem agrees_readParameterWith (hdata : data.size < 2 ^ 32) (hdepth : depth + 1 < 2 ^ 64)
    (h : ∀ position ≤ data.size, Agrees data (SigType.render plainNames)
      (read (depth + 1) ⟨data, position⟩) (inner (plainAt data position)))
    {position : Nat} (hle : position ≤ data.size) :
    Agrees data (parameterTexts plainNames) (readParameterWith read depth ⟨data, position⟩)
      (SigType.readParameterWith inner (plainAt data position)) := by
  rw [readParameterWith, SigType.readParameterWith, peek_eq hdata]
  refine .lift_bind fun mark _ => ?_
  by_cases hmark : mark = 0x41
  · rw [if_pos hmark]
    simp only [hmark, beq_self_eq_true, if_true]
    exact .bind (agrees_next hdata position) fun _ position hle _ =>
      agrees_readMarkedWith hdata hdepth h true hle
  · rw [if_neg hmark]
    simp only [beq_false_of_ne hmark, Bool.false_eq_true, if_false]
    exact agrees_readMarkedWith hdata hdepth h false hle

theorem renderAll_eq_map (types : List SigType) :
    SigType.renderAll plainNames types = types.map (SigType.render plainNames) := by
  induction types with
  | nil => rw [SigType.renderAll, List.map_nil]
  | cons type types ih => rw [SigType.renderAll, List.map_cons, ih]

theorem renderParameters_eq_flatten (parameters : List (Bool × SigType)) :
    SigType.renderParameters plainNames parameters =
      (parameters.map (parameterTexts plainNames)).flatten := by
  induction parameters with
  | nil => rw [SigType.renderParameters, List.map_nil, List.flatten_nil]
  | cons parameter parameters ih =>
    rw [SigType.renderParameters, ih, List.map_cons, List.flatten_cons, parameterTexts,
      List.append_assoc, List.singleton_append]

theorem commas_eq {count : Nat} (h : count < 2 ^ 29) :
    commas count = .ok (String.ofList (List.replicate count ',')) := by
  have hsize : ','.utf8Size = 1 := by decide
  rw [commas, hsize, mul_eq (by omega)]
  rfl

section Rules

variable (below : Reader String)
  (hbelow : ∀ position ≤ data.size, Agrees data (SigType.render plainNames)
    (below ⟨data, position⟩) (inner (plainAt data position)))

include hbelow

theorem agrees_array (hdata : data.size < 2 ^ 32) {position : Nat} (hle : position ≤ data.size) :
    Agrees data (SigType.render plainNames) (do
      let (element, c) ← below ⟨data, position⟩
      let (rank, c) ← c.compressed
      let (sizes, c) ← c.compressed
      let (_, c) ← Reader.times Cursor.compressed sizes c
      let (bounds, c) ← c.compressed
      let (_, c) ← Reader.times Cursor.compressed bounds c
      let between ← commas (rank - 1)
      return (element ++ "[" ++ between ++ "]", c)) (do
      let (element, c) ← inner (plainAt data position)
      let (rank, c) ← c.compressed
      let (sizes, c) ← c.compressed
      let (_, c) ← PublicAssembly.Reader.times PublicAssembly.Cursor.compressed sizes c
      let (bounds, c) ← c.compressed
      let (_, c) ← PublicAssembly.Reader.times PublicAssembly.Cursor.compressed bounds c
      return (.array element rank, c)) := by
  have hnumber (position : Nat) (_ : position ≤ data.size) := agrees_compressed hdata position
  refine .bind (hbelow position hle) fun element position hle _ => ?_
  refine .bind (agrees_compressed hdata position) fun rank position hle hrank => ?_
  -- a rank that was read is small enough for the bytes of so many commas to be counted
  have hcommas := commas_eq (Nat.lt_of_le_of_lt (Nat.sub_le rank 1) (compressed_lt hrank))
  refine .bind (agrees_compressed hdata position) fun sizes position hle _ => ?_
  refine .bind (.times hnumber sizes hle) fun _ position hle _ => ?_
  refine .bind (agrees_compressed hdata position) fun bounds position hle _ => ?_
  refine .bind (.times hnumber bounds hle) fun _ position hle _ => ?_
  dsimp only [id]
  rw [hcommas, Reading.ok_bind]
  exact .ok hle (by rw [SigType.render])

theorem agrees_generic (hdata : data.size < 2 ^ 32) {position : Nat} (hle : position ≤ data.size) :
    Agrees data (SigType.render plainNames) (do
      let (type, c) ← below ⟨data, position⟩
      let (count, c) ← c.compressed
      let (arguments, c) ← Reader.times below count c
      return (type ++ "<" ++ commaSeparated arguments ++ ">", c)) (do
      let (type, c) ← inner (plainAt data position)
      let (count, c) ← c.compressed
      let (arguments, c) ← inner.times count c
      return (.generic type arguments, c)) := by
  refine .bind (hbelow position hle) fun type position hle _ => ?_
  refine .bind (agrees_compressed hdata position) fun count position hle _ => ?_
  refine .bind (.times hbelow count hle) fun arguments position hle _ => ?_
  exact .ok hle (by rw [SigType.render, renderAll_eq_map])

end Rules

theorem agrees_method (hdata : data.size < 2 ^ 32) (hdepth : depth + 1 + 1 < 2 ^ 64)
    {deeper : PublicAssembly.Reader SigType}
    (hinner : ∀ position ≤ data.size, Agrees data (SigType.render plainNames)
      (read (depth + 1) ⟨data, position⟩) (inner (plainAt data position)))
    (hdeeper : ∀ position ≤ data.size, Agrees data (SigType.render plainNames)
      (read (depth + 1 + 1) ⟨data, position⟩) (deeper (plainAt data position)))
    (position : Nat) :
    Agrees data (SigType.render plainNames) (do
      let (count, c) ← readHeader ⟨data, position⟩
      let below ← add 64 depth 1
      let (result, c) ← readResultWith read below c
      let (parameters, c) ← Reader.times (readParameterWith read depth) count c
      return ("method " ++ result ++ " *(" ++ commaSeparated parameters.flatten ++ ")", c)) (do
      let (count, c) ← SigType.readHeader (plainAt data position)
      let (result, c) ← SigType.readResultWith deeper c
      let (parameters, c) ←
        PublicAssembly.Reader.times (SigType.readParameterWith inner) count c
      return (.method result parameters, c)) := by
  have hsum : depth + 1 < 2 ^ 64 := by omega
  refine .bind (agrees_readHeader hdata position) fun count position hle _ => ?_
  dsimp only
  rw [add_eq hsum, Reading.ok_bind]
  refine .bind (agrees_readResultWith hdata hdepth hdeeper hle) fun result position hle _ => ?_
  have hparameter (position : Nat) (hle : position ≤ data.size) :=
    agrees_readParameterWith hdata hsum hinner hle
  refine .bind (.times hparameter count hle) fun parameters position hle _ => ?_
  exact .ok hle (by rw [SigType.render, renderParameters_eq_flatten])

theorem agrees_readType (hdata : data.size < 2 ^ 32)
    (hnames : ∀ table row, names table row = .ok (plainNames table row)) {rounds depth : Nat}
    (hpos : 0 < rounds) (hrounds : SigType.maxDepth + 2 ≤ rounds + depth) {position : Nat}
    (hle : position ≤ data.size) :
    Agrees data (SigType.render plainNames) (readType names rounds depth ⟨data, position⟩)
      (SigType.readType (SigType.maxDepth + 1 - depth) (plainAt data position)) := by
  -- every round goes one level down, and the rounds that are left are enough for all levels
  induction rounds generalizing depth position with
  | zero => omega
  | succ rounds ih =>
    by_cases hdeep : SigType.maxDepth < depth
    · rw [readType, if_pos hdeep, Nat.sub_eq_zero_of_le hdeep]
      exact .fault _
    have hroom : SigType.maxDepth + 1 - depth = SigType.maxDepth - depth + 1 := by omega
    have hdepth : depth + 1 + 1 < 2 ^ 64 := by
      simp only [SigType.maxDepth] at hdeep
      omega
    have hbelow (n : Nat) (position : Nat) (hle : position ≤ data.size) :
        Agrees data (SigType.render plainNames)
          (readType names rounds (depth + (n + 1)) ⟨data, position⟩)
          (SigType.readType (SigType.maxDepth - (depth + n)) (plainAt data position)) := by
      have hn : SigType.maxDepth - (depth + n) = SigType.maxDepth + 1 - (depth + (n + 1)) := by
        omega
      rw [hn]
      exact ih (by omega) (by omega) hle
    -- what reads the parts, one level deeper
    let part : Reader String := fun c => add 64 depth 1 >>= fun below =>
      readType names rounds below c
    have hinner (position : Nat) (hle : position ≤ data.size) :
        Agrees data (SigType.render plainNames) (part ⟨data, position⟩)
          (SigType.readType (SigType.maxDepth - depth) (plainAt data position)) := by
      show Agrees data _ (add 64 depth 1 >>= fun below => _) _
      rw [add_eq (by omega)]
      exact hbelow 0 position hle
    rw [readType, if_neg hdeep, hroom, SigType.readType.eq_def]
    dsimp only
    refine .skipModifiers_bind hdata (fun position hle => ?_) hle
    refine .bind (agrees_next hdata position) fun element position hle _ => ?_
    dsimp only [id]
    -- one case for each element that is known, and the last one for those that are a whole type
    split
    · exact .bind (hinner position hle) fun target position hle _ =>
        .ok hle (by rw [SigType.render])
    · exact .bind (hinner position hle) fun target position hle _ =>
        .ok hle (by rw [SigType.render])
    · exact agrees_readNamed hdata hnames position
    · exact agrees_readNamed hdata hnames position
    · exact .bind (agrees_compressed hdata position) fun number position hle _ =>
        .ok hle (by rw [SigType.render]; rfl)
    · exact agrees_array part hinner hdata hle
    · exact agrees_generic part hinner hdata hle
    · refine agrees_method hdata hdepth (hbelow 0) (fun position hle => ?_) position
      -- the type of a result is two levels deeper, and no level may be left for it
      have hresult := hbelow 1 position hle
      rw [Nat.sub_add_eq] at hresult
      cases hrest : SigType.maxDepth - depth with
      | zero =>
        rw [hrest] at hresult
        exact hresult
      | succ room =>
        rw [hrest] at hresult
        exact hresult
    · exact .bind (hinner position hle) fun target position hle _ =>
        .ok hle (by rw [SigType.render])
    · exact .bind (agrees_compressed hdata position) fun number position hle _ =>
        .ok hle (by rw [SigType.render]; rfl)
    · exact .bind (hinner position hle) fun target position hle _ =>
        .ok hle (by rw [SigType.render])
    · -- the plain reader looks for the same elements, and finds none of them either
      rcases Primitive.ofElement? element with _ | type
      · simp only [*]
        exact .fault _
      · simp only [*]
        exact .ok hle (by rw [SigType.render])

theorem returnType_eq {blob : Bytes} (hblob : blob.size < 2 ^ 32)
    (hnames : ∀ table row, names table row = .ok (plainNames table row)) :
    returnType names blob = lift (PublicAssembly.returnType plainNames blob.toList) := by
  have hread : Agrees blob (SigType.render plainNames)
      (readHeader ⟨blob, 0⟩ >>= fun found =>
        readResultWith (readType names (SigType.maxDepth + 2)) 0 found.2)
      (SigType.readHeader (plainAt blob 0) >>= fun found =>
        SigType.readResultWith (SigType.readType SigType.maxDepth) found.2) := by
    refine .bind (agrees_readHeader hblob 0) fun count position hle _ => ?_
    refine agrees_readResultWith hblob (by omega) (fun position hle => ?_) hle
    exact agrees_readType hblob hnames (by omega) (by omega) hle
  have hchecked : returnType names blob = (readHeader ⟨blob, 0⟩ >>= fun found =>
      readResultWith (readType names (SigType.maxDepth + 2)) 0 found.2) >>= fun found =>
        .ok found.1 := by
    rw [bind_assoc]
    rfl
  have hplain : PublicAssembly.returnType plainNames blob.toList =
      (SigType.readHeader (plainAt blob 0) >>= fun found =>
        SigType.readResultWith (SigType.readType SigType.maxDepth) found.2) >>= fun found =>
          .ok (found.1.render plainNames) := by
    rw [PublicAssembly.returnType, SigType.ofSignature, bind_assoc, bind_assoc]
    simp only [bind_assoc]
    rfl
  -- the two go on alike with what was read, and neither can fail any more
  rw [hchecked, hplain, hread.eq_lift]
  rcases SigType.readHeader (plainAt blob 0) >>= fun found =>
    SigType.readResultWith (SigType.readType SigType.maxDepth) found.2 with cause | found
  · rfl
  · rfl

end Types

end PublicAssembly.Machine
