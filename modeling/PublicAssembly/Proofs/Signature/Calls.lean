import PublicAssembly.Proofs.Bytes.Compressed
import PublicAssembly.Proofs.Signature.Trace

/-!
# Reading a signature ends after few calls

Every type that is entered reads its element before it goes on with its parts, and an item that
takes no byte stops the loop that it is read in. So the calls are paid for with bytes: ten calls for
each byte that is passed are enough, however many items the signature declares and however its types
are nested.

## Main definitions

* `Callee.least`, `Callee.declared?`: the bytes that a call must take, and the items that it is to
  read;
* `Call.Proper`: a call stays inside of the bytes, takes the bytes that it must take, and is not too
  deep;
* `Traced.Keeps`, `Traced.Advances`: a reading makes proper calls, and not too many; so does a
  reader, which takes a byte or more.

## Main statements

* `Traced.Keeps.bind`, `Traced.Keeps.call`: what one step of a reading and the record of a call do;
* `Traced.advances_readType`: reading a type makes proper calls, and not too many;
* `Signature.returnType_calls`: and so does reading a signature.
-/

namespace PublicAssembly

open Image (Fault)
open Metadata (CodedIndex)
open Signature (roomAt)

/-- The number of bytes that a call takes at least if it does not fail. -/
def Callee.least : Callee → Nat
  | peek => 0
  | byte => 1
  | number => 1
  | header => 2
  | reference => 1
  | modifiers => 0
  | modifier => 2
  | result _ => 1
  | parameter _ => 1
  | type _ => 1
  | method count => 1 + count
  | items count => count
  | item => 1

/-- The number of items that the signature has declared when a call begins. -/
def Callee.declared? : Callee → Option Nat
  | method count => some count
  | items count => some count
  | _ => none

/-- Each item that is declared takes a byte. -/
theorem Callee.le_least {callee : Callee} {count : Nat} (h : callee.declared? = some count) :
    count ≤ callee.least := by
  cases callee
  case method => cases h; exact Nat.le_add_left _ _
  case items => cases h; exact Nat.le_refl _
  all_goals cases h

/-- The depths at which types are entered. The result of a pointer to a method is two levels deeper,
so that a type may be entered two levels too deep, and no deeper. -/
def Callee.DepthFits : Callee → Prop
  | type depth => depth ≤ SigType.maxDepth + 2
  | _ => True

/-- A call that begins and ends inside of the bytes, takes as many of them as it must take, and is
not entered too deep. -/
structure Call.Proper (bytes : List UInt8) (call : Call) : Prop where
  /-- The call begins inside of the bytes. -/
  start_le : call.start ≤ bytes.length
  /-- A call that does not fail takes its bytes, and ends inside of the bytes. -/
  stop_le : ∀ stop, call.stop = some stop →
    call.start + call.callee.least ≤ stop ∧ stop ≤ bytes.length
  /-- A type is not entered too deep. -/
  depthFits : call.callee.DepthFits

namespace Traced

variable {α β : Type} {bytes : List UInt8}

/-- A reading from a position makes proper calls, and leaves the cursor inside of the bytes, at
`reach` or behind it. If it does not fail, then no call fails, and there are at most ten calls for
each byte that was passed, and `more`; if it fails, there are at most ten for each byte that was
left, and `spare`. -/
structure Keeps (bytes : List UInt8) (position reach : Nat) (more spare : Int)
    (run : Traced (α × Cursor)) : Prop where
  /-- The calls are proper. -/
  proper : ∀ call ∈ run.calls, call.Proper bytes
  /-- What holds of a reading that does not fail. -/
  passes : ∀ a c, run.result = .ok (a, c) →
    c = Cursor.inside bytes c.position ∧ reach ≤ c.position ∧ c.position ≤ bytes.length ∧
      (∀ call ∈ run.calls, call.stop ≠ none) ∧
      (run.calls.length : Int) + 10 * position ≤ 10 * c.position + more
  /-- What holds of a reading that fails. -/
  fails : ∀ fault, run.result = .error fault →
    (run.calls.length : Int) + 10 * position ≤ 10 * bytes.length + spare

/-- A reader that takes a byte or more, wherever it begins. -/
def Advances (bytes : List UInt8) (more spare : Int) (read : TracedReader α) : Prop :=
  ∀ place, place ≤ bytes.length →
    Keeps bytes place (place + 1) more spare (read (Cursor.inside bytes place))

namespace Keeps

variable {position reach : Nat} {more spare : Int}

/-- A step that makes no call of its own. -/
theorem quiet {result : Except Fault (α × Cursor)} (hposition : position ≤ bytes.length)
    (hspare : 0 ≤ spare)
    (h : ∀ a c, result = .ok (a, c) → ∃ place, c = Cursor.inside bytes place ∧ reach ≤ place ∧
      place ≤ bytes.length ∧ 10 * (position : Int) ≤ 10 * place + more) :
    Keeps bytes position reach more spare ⟨[], result⟩ := by
  refine ⟨nofun, fun a c hrun => ?_, fun fault _ => ?_⟩
  · obtain ⟨place, rfl, hreach, hend, hmore⟩ := h a c hrun
    refine ⟨rfl, hreach, hend, nofun, ?_⟩
    show ((0 : Nat) : Int) + 10 * (position : Int) ≤ 10 * (place : Int) + more
    omega
  · show ((0 : Nat) : Int) + 10 * (position : Int) ≤ _
    omega

/-- A value that is given at the place of the cursor. -/
theorem give (hposition : position ≤ bytes.length) (hreach : reach ≤ position) (hmore : 0 ≤ more)
    (hspare : 0 ≤ spare) (a : α) :
    Keeps bytes position reach more spare (Traced.give (a, Cursor.inside bytes position)) := by
  refine quiet hposition hspare fun b c hrun => ?_
  cases hrun
  exact ⟨position, rfl, hreach, hposition, by omega⟩

/-- A fault that is met without a call. -/
theorem fail (hposition : position ≤ bytes.length) (hspare : 0 ≤ spare) (fault : Fault) :
    Keeps bytes position reach more spare (Traced.fail fault : Traced (α × Cursor)) :=
  quiet hposition hspare nofun

/-- A weaker bound. -/
theorem mono {reach' : Nat} {more' spare' : Int} {run : Traced (α × Cursor)}
    (h : Keeps bytes position reach' more' spare' run) (hreach : reach ≤ reach')
    (hmore : more' ≤ more) (hspare : spare' ≤ spare) :
    Keeps bytes position reach more spare run := by
  refine ⟨h.proper, fun a c hrun => ?_, fun fault hrun => ?_⟩
  · obtain ⟨hc, hle, hend, hstop, hcalls⟩ := h.passes a c hrun
    exact ⟨hc, Nat.le_trans hreach hle, hend, hstop, by omega⟩
  · have hcalls := h.fails fault hrun
    omega

/-- What is made of the value that was read costs nothing. -/
theorem map {run : Traced (α × Cursor)} (h : Keeps bytes position reach more spare run)
    (f : α → β) :
    Keeps bytes position reach more spare
      (run >>= fun found => Traced.give (f found.1, found.2)) := by
  obtain ⟨calls, result⟩ := run
  -- nothing is recorded behind the run
  cases result with
  | error fault => exact ⟨h.proper, nofun, fun other _ => h.fails fault rfl⟩
  | ok found =>
    have hcalls : ((⟨calls, .ok found⟩ : Traced (α × Cursor)) >>= fun found =>
        Traced.give (f found.1, found.2)).calls = calls := List.append_nil calls
    refine ⟨?_, fun b c hrun => ?_, nofun⟩
    · rw [hcalls]
      exact h.proper
    · cases hrun
      rw [hcalls]
      exact h.passes found.1 found.2 rfl

/-- Two steps: what the first one leaves of the bounds is for the second one. -/
theorem bind {reach' : Nat} {more' spare' : Int} {first : Traced (α × Cursor)}
    {next : α × Cursor → Traced (β × Cursor)} (h : Keeps bytes position reach' more' spare' first)
    (hspare : spare' ≤ spare)
    (hnext : ∀ a place, first.result = .ok (a, Cursor.inside bytes place) → reach' ≤ place →
      place ≤ bytes.length →
      Keeps bytes place reach (more - more') (spare - more')
        (next (a, Cursor.inside bytes place))) :
    Keeps bytes position reach more spare (first >>= next) := by
  obtain ⟨calls, result⟩ := first
  cases result with
  | error fault =>
    refine ⟨h.proper, nofun, fun other _ => ?_⟩
    have hcalls := h.fails fault rfl
    exact Int.le_trans hcalls (by omega)
  | ok found =>
    obtain ⟨a, c⟩ := found
    -- the second step begins inside of the bytes, and what the first one left pays for its calls
    obtain ⟨hc, hreach, hend, hstop, hcalls⟩ := h.passes a c rfl
    have hsecond := hnext a c.position (by rw [← hc]) hreach hend
    rw [← hc] at hsecond
    dsimp only at hcalls
    have hlength : ((⟨calls, .ok (a, c)⟩ : Traced (α × Cursor)) >>= next).calls.length =
        calls.length + (next (a, c)).calls.length := List.length_append
    refine ⟨fun call hcall => ?_, fun b d hrun => ?_, fun fault hrun => ?_⟩
    · rcases List.mem_append.1 hcall with hfirst | hlater
      · exact h.proper call hfirst
      · exact hsecond.proper call hlater
    · obtain ⟨hd, hreach', hend', hstop', hcalls'⟩ := hsecond.passes b d hrun
      refine ⟨hd, hreach', hend', fun call hcall => ?_, by omega⟩
      rcases List.mem_append.1 hcall with hfirst | hlater
      · exact hstop call hfirst
      · exact hstop' call hlater
    · have hcalls' := hsecond.fails fault hrun
      omega

/-- A reading that goes two ways. -/
theorem ite {p : Prop} [Decidable p] {run₁ run₂ : Traced (α × Cursor)}
    (h₁ : p → Keeps bytes position reach more spare run₁)
    (h₂ : ¬p → Keeps bytes position reach more spare run₂) :
    Keeps bytes position reach more spare (if p then run₁ else run₂) := by
  by_cases hp : p
  · rw [if_pos hp]
    exact h₁ hp
  · rw [if_neg hp]
    exact h₂ hp

/-- The record of a call is one more. -/
theorem call {callee : Callee} {read : TracedReader α} (hposition : position ≤ bytes.length)
    (hdepth : callee.DepthFits) (hreach : position + callee.least ≤ reach)
    (h : Keeps bytes position reach (more - 1) (spare - 1) (read (Cursor.inside bytes position))) :
    Keeps bytes position reach more spare
      (Traced.call callee read (Cursor.inside bytes position)) := by
  have hlength : (Traced.call callee read (Cursor.inside bytes position)).calls.length =
      (read (Cursor.inside bytes position)).calls.length + 1 := List.length_append
  refine ⟨fun call hcall => ?_, fun a c hrun => ?_, fun fault hrun => ?_⟩
  · rcases List.mem_append.1 hcall with hinner | hself
    · exact h.proper call hinner
    · rw [List.mem_singleton] at hself
      subst hself
      -- the call itself stops where the reading of it ends
      refine ⟨hposition, fun stop hstop => ?_, hdepth⟩
      dsimp only [Traced.stop] at hstop
      split at hstop
      · cases hstop
      · next a c hresult =>
        cases hstop
        obtain ⟨-, hle, hend, -⟩ := h.passes a c hresult
        exact ⟨Nat.le_trans hreach hle, hend⟩
  · obtain ⟨hc, hle, hend, hstop, hcalls⟩ := h.passes a c hrun
    refine ⟨hc, hle, hend, fun call hcall => ?_, by omega⟩
    rcases List.mem_append.1 hcall with hinner | hself
    · exact hstop call hinner
    · rw [List.mem_singleton] at hself
      subst hself
      have hresult : (read (Cursor.inside bytes position)).result = .ok (a, c) := hrun
      simp [Traced.stop, hresult]
  · have hcalls := h.fails fault hrun
    omega

end Keeps

/-! ### The readers of single items -/

section Readers

variable {position : Nat}

/-- A look at a byte leaves the cursor where it is. -/
theorem cursor_of_result_peek {b : UInt8} {c d : Cursor} (h : (peek c).result = .ok (b, d)) :
    d = c := by
  change c.peek.map (fun b => (b, c)) = .ok (b, d) at h
  cases hpeek : c.peek with
  | error fault =>
    rw [hpeek] at h
    cases h
  | ok lead =>
    rw [hpeek] at h
    cases h
    rfl

theorem keeps_peek (h : position ≤ bytes.length) :
    Keeps bytes position position 1 1 (peek (Cursor.inside bytes position)) := by
  refine Keeps.call h trivial (Nat.le_refl _) (Keeps.quiet h (by decide) fun b c hrun => ?_)
  exact ⟨position, cursor_of_result_peek hrun, Nat.le_refl _, h, by omega⟩

/-- What follows on a look at the byte at the cursor begins where the look did. -/
theorem keeps_peek_bind {reach : Nat} {more spare : Int}
    {next : UInt8 × Cursor → Traced (α × Cursor)} (h : position ≤ bytes.length) (hspare : 1 ≤ spare)
    (hnext : ∀ b, Keeps bytes position reach (more - 1) (spare - 1)
      (next (b, Cursor.inside bytes position))) :
    Keeps bytes position reach more spare (peek (Cursor.inside bytes position) >>= next) := by
  refine Keeps.bind (keeps_peek h) hspare fun b place hrun _ _ => ?_
  obtain rfl : place = position := congrArg Cursor.position (cursor_of_result_peek hrun)
  exact hnext b

theorem advances_next : Advances bytes (-9) 1 next := by
  intro place h
  refine Keeps.call h trivial (Nat.le_refl _) (Keeps.quiet h (by decide) fun b c hrun => ?_)
  obtain ⟨hend, rfl⟩ := Cursor.exists_of_next_inside hrun
  exact ⟨place + 1, rfl, Nat.le_refl _, hend, by omega⟩

theorem advances_compressed : Advances bytes (-9) 1 compressed := by
  intro place h
  refine Keeps.call h trivial (Nat.le_refl _) (Keeps.quiet h (by decide) fun value c hrun => ?_)
  obtain ⟨number, -, hrest, rfl⟩ := Cursor.exists_of_compressed_inside hrun
  have hlength := congrArg List.length hrest
  rw [List.length_drop, List.length_append, number.length_bytes] at hlength
  have hform := number.form.length_eq
  exact ⟨place + number.form.length, rfl, by omega, by omega, by omega⟩

theorem keeps_readHeader (h : position ≤ bytes.length) :
    Keeps bytes position (position + 2) (-17) 2 (readHeader (Cursor.inside bytes position)) := by
  refine Keeps.call h trivial (Nat.le_refl _) ?_
  refine Keeps.bind (advances_next _ h) (by omega) fun convention place _ hplace hend => ?_
  refine Keeps.ite (fun _ => ?_) fun _ => ?_
  · refine Keeps.bind (advances_compressed _ hend) (by omega) fun arity behind _ hbehind hend => ?_
    exact (advances_compressed _ hend).mono (by omega) (by omega) (by omega)
  · exact (advances_compressed _ hend).mono (by omega) (by omega) (by omega)

theorem advances_readNamed : Advances bytes (-8) 2 readNamed := by
  intro place h
  refine Keeps.call h trivial (Nat.le_refl _) ?_
  refine Keeps.bind (advances_compressed _ h) (by omega) fun value behind _ hbehind hend => ?_
  dsimp only
  rcases CodedIndex.typeDefOrRef.decode value with _ | ⟨table, row⟩
  · exact Keeps.fail hend (by omega) _
  · exact Keeps.give hend hbehind (by omega) (by omega) _

theorem keeps_modifier (h : position ≤ bytes.length) :
    Keeps bytes position (position + 2) (-17) 2 (modifier (Cursor.inside bytes position)) := by
  refine Keeps.call h trivial (Nat.le_refl _) ?_
  refine Keeps.bind (advances_next _ h) (by omega) fun _ place _ hplace hend => ?_
  refine Keeps.bind (advances_compressed _ hend) (by omega) fun _ behind _ hbehind hend => ?_
  exact Keeps.give hend (by omega) (by omega) (by omega) _

theorem keeps_passModifiers (h : position ≤ bytes.length) :
    Keeps bytes position position 1 3 (passModifiers (Cursor.inside bytes position)) := by
  induction hleft : bytes.length - position using Nat.strongRecOn generalizing position with
  | ind left ih =>
    rw [passModifiers_eq]
    refine keeps_peek_bind h (by omega) fun element => ?_
    refine Keeps.ite (fun _ => ?_) fun _ => ?_
    · -- a modifier takes bytes, so that fewer are left for those behind it
      refine Keeps.bind (keeps_modifier h) (by omega) fun _ place _ hplace hend => ?_
      have hshorter : bytes.length - place < left := by omega
      exact (ih _ hshorter hend rfl).mono (by omega) (by omega) (by omega)
    · exact Keeps.give h (Nat.le_refl _) (by omega) (by omega) _

theorem keeps_skipModifiers (h : position ≤ bytes.length) :
    Keeps bytes position position 2 4 (skipModifiers (Cursor.inside bytes position)) :=
  Keeps.call h trivial (Nat.le_refl _) (keeps_passModifiers h)

end Readers

/-! ### The readers of parts -/

section Parts

variable {position : Nat} {more spare : Int}

/-- A loop goes around as often as the signature declares, and takes at least as many bytes. -/
theorem keeps_times {read : TracedReader α} (hread : Advances bytes more spare read)
    (hmore : more ≤ -1) (hspare : 0 ≤ spare) (count : Nat) (h : position ≤ bytes.length) :
    Keeps bytes position (position + count) 0 (spare + 1)
      (times read count (Cursor.inside bytes position)) := by
  induction count generalizing position with
  | zero => exact Keeps.give h (Nat.le_refl _) (Int.le_refl _) (by omega) _
  | succ count ih =>
    have hitem : Keeps bytes position (position + 1) 0 (spare + 1)
        (call .item read (Cursor.inside bytes position)) :=
      Keeps.call h trivial (Nat.le_refl _)
        ((hread position h).mono (by omega) (by omega) (by omega))
    refine Keeps.bind hitem (Int.le_refl _) fun item place _ hplace hend => ?_
    refine Keeps.bind (ih hend) (by omega) fun rest behind _ hbehind hend => ?_
    exact Keeps.give hend (by omega) (by omega) (by omega) _

theorem keeps_items {read : TracedReader α} (hread : Advances bytes more spare read)
    (hmore : more ≤ -1) (hspare : 0 ≤ spare) (count : Nat) (h : position ≤ bytes.length) :
    Keeps bytes position (position + count) 1 (spare + 2)
      (items read count (Cursor.inside bytes position)) :=
  Keeps.call h trivial (Nat.le_refl _)
    ((keeps_times hread hmore hspare count h).mono (Nat.le_refl _) (by omega) (by omega))

variable {inner : TracedReader SigType}

theorem advances_readResultWith (depth : Nat) (hinner : Advances bytes (-6) 5 inner) :
    Advances bytes (-2) 9 (readResultWith depth inner) := by
  intro position h
  refine Keeps.call h trivial (Nat.le_refl _) ?_
  refine Keeps.bind (keeps_skipModifiers h) (by omega) fun _ place _ hplace hend => ?_
  refine keeps_peek_bind hend (by omega) fun element => ?_
  refine Keeps.ite (fun _ => ?_) fun _ => Keeps.ite (fun _ => ?_) fun _ => ?_
  · refine Keeps.bind (advances_next _ hend) (by omega) fun _ behind _ hbehind hend => ?_
    exact Keeps.give hend (by omega) (by omega) (by omega) _
  · refine Keeps.bind (advances_next _ hend) (by omega) fun _ behind _ hbehind hend => ?_
    exact ((hinner _ hend).map SigType.byRef).mono (by omega) (by omega) (by omega)
  · exact (hinner _ hend).mono (by omega) (by omega) (by omega)

theorem advances_readUnmarkedWith (depth : Nat) (hinner : Advances bytes (-6) 5 inner) :
    Advances bytes (-2) 9 (readUnmarkedWith depth inner) := by
  intro position h
  refine Keeps.call h trivial (Nat.le_refl _) ?_
  refine Keeps.bind (keeps_skipModifiers h) (by omega) fun _ place _ hplace hend => ?_
  refine keeps_peek_bind hend (by omega) fun element => ?_
  refine Keeps.ite (fun _ => ?_) fun _ => ?_
  · refine Keeps.bind (advances_next _ hend) (by omega) fun _ behind _ hbehind hend => ?_
    exact Keeps.give hend (by omega) (by omega) (by omega) _
  · exact (hinner _ hend).mono (by omega) (by omega) (by omega)

theorem advances_readParameterWith (depth : Nat) (hinner : Advances bytes (-6) 5 inner) :
    Advances bytes (-1) 10 (readParameterWith depth inner) := by
  intro position h
  have hread := advances_readUnmarkedWith depth hinner
  refine keeps_peek_bind h (by omega) fun element => ?_
  refine Keeps.ite (fun _ => ?_) fun _ => ?_
  · refine Keeps.bind (advances_next _ h) (by omega) fun _ place _ hplace hend => ?_
    exact ((hread _ hend).map (true, ·)).mono (by omega) (by omega) (by omega)
  · exact ((hread _ h).map (false, ·)).mono (by omega) (by omega) (by omega)

theorem keeps_readMethodWith {result parameter : TracedReader SigType} (depth : Nat)
    (hresult : Advances bytes (-6) 5 result) (hparameter : Advances bytes (-6) 5 parameter)
    (count : Nat) (h : position ≤ bytes.length) :
    Keeps bytes position (position + (1 + count)) 0 11
      (readMethodWith depth result parameter count (Cursor.inside bytes position)) := by
  refine Keeps.call h trivial (Nat.le_refl _) ?_
  refine Keeps.bind (advances_readResultWith depth hresult _ h) (by omega)
    fun type place _ hplace hend => ?_
  have hread := advances_readParameterWith depth hparameter
  refine Keeps.bind (keeps_items hread (by decide) (by decide) count hend) (by omega)
    fun parameters _ _ hlast hend => ?_
  exact Keeps.give hend (by omega) (by omega) (by omega) _

end Parts

/-! ### Types and signatures -/

/-- Reading a type makes proper calls, and not too many: the byte of its element pays for the calls
that lead to it, and there are six left for those around the type. -/
theorem advances_readType {depth : Nat} (hfits : depth ≤ SigType.maxDepth + 2) :
    Advances bytes (-6) 5 (readType depth) := by
  induction hroom : roomAt depth using Nat.strongRecOn generalizing depth with
  | ind room ih =>
    subst hroom
    intro position h
    rw [readType]
    refine Keeps.call h hfits (Nat.le_refl _) ?_
    refine Keeps.ite (fun _ => Keeps.fail h (by omega) _) fun hdeep => ?_
    have hdepth := Nat.le_of_not_lt hdeep
    -- the parts are deeper, and there is less room below them
    have hpart : Advances bytes (-6) 5 (readType (depth + 1)) :=
      ih _ (Signature.roomAt_lt hdepth (by omega)) (by omega) rfl
    have hresult : Advances bytes (-6) 5 (readType (depth + 2)) :=
      ih _ (Signature.roomAt_lt hdepth (by omega)) (by omega) rfl
    refine Keeps.bind (keeps_skipModifiers h) (by omega) fun _ place _ hplace hend => ?_
    refine Keeps.bind (advances_next _ hend) (by omega) fun element behind _ hbehind hend => ?_
    dsimp only
    -- one case for each element that is known, and the last one for those that are a whole type
    split
    · exact ((hpart _ hend).map SigType.pointer).mono (by omega) (by omega) (by omega)
    · exact ((hpart _ hend).map SigType.byRef).mono (by omega) (by omega) (by omega)
    · exact (advances_readNamed _ hend).mono (by omega) (by omega) (by omega)
    · exact (advances_readNamed _ hend).mono (by omega) (by omega) (by omega)
    · exact ((advances_compressed _ hend).map SigType.typeVariable).mono (by omega) (by omega)
        (by omega)
    · refine Keeps.bind (hpart _ hend) (by omega) fun element _ _ helement hend => ?_
      refine Keeps.bind (advances_compressed _ hend) (by omega) fun rank _ _ hrank hend => ?_
      refine Keeps.bind (advances_compressed _ hend) (by omega) fun sizes _ _ hsizes hend => ?_
      refine Keeps.bind (keeps_items advances_compressed (by decide) (by decide) sizes hend)
        (by omega) fun _ _ _ hpassed hend => ?_
      refine Keeps.bind (advances_compressed _ hend) (by omega) fun bounds _ _ hbounds hend => ?_
      refine Keeps.bind (keeps_items advances_compressed (by decide) (by decide) bounds hend)
        (by omega) fun _ _ _ hlast hend => ?_
      exact Keeps.give hend (by omega) (by omega) (by omega) _
    · refine Keeps.bind (hpart _ hend) (by omega) fun type _ _ htype hend => ?_
      refine Keeps.bind (advances_compressed _ hend) (by omega) fun count _ _ hcount hend => ?_
      refine Keeps.bind (keeps_items hpart (by decide) (by decide) count hend) (by omega)
        fun arguments _ _ hlast hend => ?_
      exact Keeps.give hend (by omega) (by omega) (by omega) _
    · refine Keeps.bind (keeps_readHeader hend) (by omega) fun count _ _ hcount hend => ?_
      exact (keeps_readMethodWith (depth + 1) hresult hpart count hend).mono (by omega) (by omega)
        (by omega)
    · exact ((hpart _ hend).map SigType.vector).mono (by omega) (by omega) (by omega)
    · exact ((advances_compressed _ hend).map SigType.methodVariable).mono (by omega) (by omega)
        (by omega)
    · exact ((hpart _ hend).map SigType.pinned).mono (by omega) (by omega) (by omega)
    · rcases Primitive.ofElement? element with _ | type
      · exact Keeps.fail hend (by omega) _
      · exact Keeps.give hend (by omega) (by omega) (by omega) _

/-- Reading a signature makes proper calls, and not too many. -/
theorem keeps_ofSignature (blob : List UInt8) : Keeps blob 0 3 (-19) 2 (ofSignature blob) := by
  rw [ofSignature, Cursor.start_eq_inside]
  refine Keeps.bind (keeps_readHeader (Nat.zero_le _)) (by omega) fun _ place _ hplace hend => ?_
  have htype : Advances blob (-6) 5 (readType 1) := advances_readType (by decide)
  exact (advances_readResultWith 0 htype _ hend).mono (by omega) (by omega) (by omega)

/-- There are at most ten calls for each byte of a signature, and two. -/
theorem length_calls_ofSignature_le (blob : List UInt8) :
    (ofSignature blob).calls.length ≤ 10 * blob.length + 2 := by
  have hkeeps := keeps_ofSignature blob
  cases hrun : (ofSignature blob).result with
  | error fault =>
    have hcalls := hkeeps.fails fault hrun
    omega
  | ok found =>
    obtain ⟨-, -, hend, -, hcalls⟩ := hkeeps.passes found.1 found.2 hrun
    omega

/-- If more items are declared than there are bytes left, then the signature is not read. -/
theorem exists_error_of_declared {blob : List UInt8} {call : Call} {count : Nat}
    (hcall : call ∈ (ofSignature blob).calls) (hcount : call.callee.declared? = some count)
    (hleft : blob.length - call.start < count) :
    ∃ fault, SigType.ofSignature blob = .error fault := by
  have hkeeps := keeps_ofSignature blob
  rw [← result_ofSignature]
  cases hrun : (ofSignature blob).result with
  | error fault => exact ⟨fault, rfl⟩
  | ok found =>
    -- no call of a reading that succeeds fails, so that this one has passed a byte for each item
    obtain ⟨-, -, -, hstop, -⟩ := hkeeps.passes found.1 found.2 hrun
    obtain ⟨stop, hstop⟩ := Option.ne_none_iff_exists'.1 (hstop call hcall)
    obtain ⟨hleast, hend⟩ := (hkeeps.proper call hcall).stop_le stop hstop
    have hdeclared := call.callee.le_least hcount
    omega

end Traced

namespace Signature

/-- Reading the return type of a signature ends, whatever the signature declares: there are at most
ten calls for each of its bytes, and two. No type is entered at a depth over 66. Every call begins
inside of the signature; if it does not fail, it also ends inside of it, and takes the bytes that it
must take. If more arguments, parameters, sizes or bounds are declared than there are bytes behind
the number, then the reading fails. -/
theorem returnType_calls (names : TypeNames) (blob : List UInt8) :
    (Traced.ofSignature blob).result.map (fun found => found.1.render names) =
        returnType names blob ∧
      (Traced.ofSignature blob).calls.length ≤ 10 * blob.length + 2 ∧
      ∀ call ∈ (Traced.ofSignature blob).calls,
        (∀ depth, call.callee = .type depth → depth ≤ 66) ∧
        call.start ≤ blob.length ∧
        (∀ stop, call.stop = some stop →
          call.start + call.callee.least ≤ stop ∧ stop ≤ blob.length) ∧
        ∀ count, call.callee.declared? = some count → blob.length - call.start < count →
          ∃ fault, returnType names blob = .error fault := by
  refine ⟨?_, Traced.length_calls_ofSignature_le blob, fun call hcall => ?_⟩
  · rw [returnType, ← Traced.result_ofSignature]
    cases (Traced.ofSignature blob).result <;> rfl
  have hproper := (Traced.keeps_ofSignature blob).proper call hcall
  refine ⟨fun depth hdepth => ?_, hproper.start_le, hproper.stop_le, fun count hcount hleft => ?_⟩
  · have hfits := hproper.depthFits
    rw [hdepth] at hfits
    exact hfits
  · obtain ⟨fault, hfault⟩ := Traced.exists_error_of_declared hcall hcount hleft
    refine ⟨fault, ?_⟩
    rw [returnType, hfault]
    rfl

/-- A generic type that declares three arguments, with one byte behind the number. -/
theorem returnType_calls_threeArguments :
    (⟨.items 3, 6, none⟩ : Call) ∈
        (Traced.ofSignature [0x00, 0x00, 0x15, 0x12, 0x04, 0x03, 0x08]).calls ∧
      ∃ fault, returnType (fun _ _ => none) [0x00, 0x00, 0x15, 0x12, 0x04, 0x03, 0x08] =
        .error fault := by
  have hcall : (⟨.items 3, 6, none⟩ : Call) ∈
      (Traced.ofSignature [0x00, 0x00, 0x15, 0x12, 0x04, 0x03, 0x08]).calls := by
    decide +kernel
  obtain ⟨-, -, hcalls⟩ :=
    returnType_calls (fun _ _ => none) [0x00, 0x00, 0x15, 0x12, 0x04, 0x03, 0x08]
  obtain ⟨-, -, -, hdeclared⟩ := hcalls _ hcall
  exact ⟨hcall, hdeclared 3 rfl (by decide)⟩

end Signature

end PublicAssembly
