import Mathlib.Algebra.GroupWithZero.Nat
import PublicAssembly.Image.Fault
import PublicAssembly.Proofs.Reading

/-!
# Words, and what stops a machine

The numbers of this library have no bound. A machine counts with words of a fixed number of bits,
and some of its operations have no result then: a sum that does not fit, a difference below zero, a
shift by more bits than there are, an item of a vector at a place behind its end. A machine that
comes upon one of them stops.

A checked computation performs every such operation on words. It stops in more ways than with a
fault, so that it can be shown to stop with faults only: it is then a computation on numbers,
lifted (`lift`).

## Main definitions

* `Machine.Stop`: the ways in which a checked computation stops;
* `Machine.Settles`: a checked computation stops in none of them but with a fault;
* `Machine.lift`: a computation on numbers as a checked one.

## Main statements

* `Machine.bind_eq_lift`: step after step of a checked computation is compared, knowing what the
  steps before gave.
-/

namespace PublicAssembly.Machine

open Image (Fault)

/-- The operations that have no result. -/
inductive Trap where
  /-- A sum or a product that does not fit into the word. -/
  | overflow
  /-- A difference below zero. -/
  | underflow
  /-- A shift by as many bits as the word has, or by more. -/
  | shift
  /-- An item of a vector at a place behind its end, or a part that goes on behind its end. -/
  | index
  deriving DecidableEq, Repr

/-- The states that are looked out for and have a message of their own. -/
inductive Lapse where
  /-- An accessor belongs to a type that has no run of methods. -/
  | accessorWithoutType (method : Nat)
  /-- An accessor stands before the methods of its type. -/
  | accessorBeforeType (method : Nat)
  /-- The type around a nested type was not attached before it. -/
  | lostParent (row : Nat)
  /-- The offset behind a table does not fit into a word. -/
  | tablesOverflow
  deriving DecidableEq, Repr

/-- The ways in which a checked computation stops. -/
inductive Stop where
  /-- The data has a fault. -/
  | fault (fault : Fault)
  /-- The computation is in a state that was looked out for. -/
  | lapse (lapse : Lapse)
  /-- An operation has no result. -/
  | trap (trap : Trap)
  /-- A loop takes more rounds than it was given. -/
  | endless
  deriving DecidableEq, Repr

/-- A computation that checks its operations. -/
abbrev Checked (α : Type) : Type :=
  Except Stop α

variable {α β : Type}

/-- A computation on numbers as a checked one. -/
def lift (read : Except Fault α) : Checked α :=
  read.mapError .fault

@[simp]
theorem lift_ok (a : α) : lift (.ok a) = .ok a := rfl

@[simp]
theorem lift_error (fault : Fault) : lift (.error fault : Except Fault α) = .error (.fault fault) :=
  rfl

theorem lift_bind (read : Except Fault α) (follow : α → Except Fault β) :
    lift (read >>= follow) = lift read >>= fun a => lift (follow a) := by
  cases read <;> rfl

/-- A checked computation gives a result, or it stops with a fault of the data. -/
def Settles (checked : Checked α) : Prop :=
  (∃ a, checked = .ok a) ∨ ∃ fault, checked = .error (.fault fault)

theorem settles_lift (read : Except Fault α) : Settles (lift read) := by
  cases read with
  | error fault => exact .inr ⟨fault, rfl⟩
  | ok a => exact .inl ⟨a, rfl⟩

/-! ### One step after another -/

section Steps

variable {checked : Checked α} {read : Except Fault α}

/-- A checked computation in two steps is the lifted one if both steps are; the second one may rely
on what the first one gave. -/
theorem bind_eq_lift {next : α → Checked β} {follow : α → Except Fault β} (h : checked = lift read)
    (hnext : ∀ a, read = .ok a → next a = lift (follow a)) :
    checked >>= next = lift (read >>= follow) := by
  subst h
  cases read with
  | error fault => rfl
  | ok a => exact hnext a rfl

/-- A computation that goes two ways is the lifted one if it is on each. -/
theorem ite_eq_lift {p : Prop} [Decidable p] {checked₁ checked₂ : Checked α}
    {read₁ read₂ : Except Fault α} (h₁ : p → checked₁ = lift read₁)
    (h₂ : ¬p → checked₂ = lift read₂) :
    (if p then checked₁ else checked₂) = lift (if p then read₁ else read₂) := by
  by_cases hp : p
  · rw [if_pos hp, if_pos hp, h₁ hp]
  · rw [if_neg hp, if_neg hp, h₂ hp]

/-- Checked computations one after another are lifted ones if each is. -/
theorem mapM_eq_lift {γ : Type} {next : γ → Checked α} {follow : γ → Except Fault α} {xs : List γ}
    (h : ∀ x ∈ xs, next x = lift (follow x)) : xs.mapM next = lift (xs.mapM follow) := by
  induction xs with
  | nil => rfl
  | cons x xs ih =>
    rw [List.forall_mem_cons] at h
    rw [List.mapM_cons, List.mapM_cons]
    refine bind_eq_lift h.1 fun a _ => bind_eq_lift (ih h.2) fun as _ => rfl

end Steps

/-! ### Operations on words -/

/-- The sum of two words, if it fits. -/
def sum? (bits a b : Nat) : Option Nat :=
  if a + b < 2 ^ bits then some (a + b) else none

/-- The sum of two words. -/
def add (bits a b : Nat) : Checked Nat :=
  if a + b < 2 ^ bits then .ok (a + b) else .error (.trap .overflow)

/-- The product of two words. -/
def mul (bits a b : Nat) : Checked Nat :=
  if a * b < 2 ^ bits then .ok (a * b) else .error (.trap .overflow)

/-- The difference of two words. -/
def sub (a b : Nat) : Checked Nat :=
  if b ≤ a then .ok (a - b) else .error (.trap .underflow)

/-- A word with its bits moved up; those that leave it are lost. -/
def shiftLeft (bits a n : Nat) : Checked Nat :=
  if n < bits then .ok (a <<< n % 2 ^ bits) else .error (.trap .shift)

/-- A word with its bits moved down. -/
def shiftRight (bits a n : Nat) : Checked Nat :=
  if n < bits then .ok (a >>> n) else .error (.trap .shift)

/-- The item at a place. -/
def index (items : Array α) (i : Nat) : Checked α :=
  match items[i]? with
  | some item => .ok item
  | none => .error (.trap .index)

/-- The vector with another item at a place. -/
def put (items : Array α) (i : Nat) (item : α) : Checked (Array α) :=
  if i < items.size then .ok (items.setIfInBounds i item) else .error (.trap .index)

section Operations

variable {bits a b n : Nat}

theorem sum?_eq (h : a + b < 2 ^ bits) : sum? bits a b = some (a + b) :=
  if_pos h

theorem sum?_eq_none (h : 2 ^ bits ≤ a + b) : sum? bits a b = none :=
  if_neg (Nat.not_lt.2 h)

theorem add_eq (h : a + b < 2 ^ bits) : add bits a b = .ok (a + b) :=
  if_pos h

theorem mul_eq (h : a * b < 2 ^ bits) : mul bits a b = .ok (a * b) :=
  if_pos h

theorem sub_eq (h : b ≤ a) : sub a b = .ok (a - b) :=
  if_pos h

theorem shiftLeft_eq (hn : n < bits) (h : a <<< n < 2 ^ bits) :
    shiftLeft bits a n = .ok (a <<< n) := by
  rw [shiftLeft, if_pos hn, Nat.mod_eq_of_lt h]

theorem shiftRight_eq (hn : n < bits) : shiftRight bits a n = .ok (a >>> n) :=
  if_pos hn

theorem index_eq {items : Array α} {i : Nat} {item : α} (h : items[i]? = some item) :
    index items i = .ok item := by
  rw [index, h]

theorem put_eq {items : Array α} {i : Nat} (h : i < items.size) (item : α) :
    put items i item = .ok (items.setIfInBounds i item) :=
  if_pos h

/-- All items of a vector, place after place. -/
theorem mapM_index (items : Array α) :
    (List.range items.size).mapM (index items) = .ok items.toList := by
  refine Reading.mapM_eq_ok_iff.2 ?_
  apply List.ext_getElem
  · simp
  · intro i hi _
    simp only [List.length_map, List.length_range] at hi
    simp [index, hi]

end Operations

end PublicAssembly.Machine
