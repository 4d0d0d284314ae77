import PublicAssembly.Proofs.Bytes.Agreement

/-!
# Spans

A span names some bytes of a file that lie side by side. A reading that depends on some spans alone
is not disturbed by changes that are apart from all of them.

## Main definitions

* `Span.Apart`: two spans have no byte in common;
* `Span.Consecutive`: spans that follow one another without gaps.
-/

namespace PublicAssembly

/-- Some bytes of a file that lie side by side. -/
structure Span where
  /-- The offset of the first byte. -/
  offset : Nat
  /-- The number of bytes. -/
  size : Nat
  deriving DecidableEq, Repr

namespace Span

/-- The byte at a place belongs to the span. -/
def Holds (span : Span) (i : Nat) : Prop :=
  span.offset ≤ i ∧ i < span.offset + span.size

/-- The spans have no byte in common. -/
def Apart (a b : Span) : Prop :=
  a.size = 0 ∨ b.size = 0 ∨ a.offset + a.size ≤ b.offset ∨ b.offset + b.size ≤ a.offset

instance (a b : Span) : Decidable (a.Apart b) :=
  inferInstanceAs (Decidable (_ ∨ _ ∨ _ ∨ _))

/-- Spans are apart exactly if no byte belongs to both. -/
theorem apart_iff {a b : Span} : a.Apart b ↔ ∀ i, a.Holds i → ¬ b.Holds i := by
  simp only [Apart, Holds]
  constructor
  · intro h i hi
    omega
  · intro h
    have hfirst := h a.offset
    have hother := h b.offset
    omega

/-- The spans follow one another without gaps, the first from `first` on and the last up to
`last`. -/
def Consecutive : (first : Nat) → List Span → (last : Nat) → Prop
  | first, [], last => first = last
  | first, span :: rest, last => span.offset = first ∧ Consecutive (first + span.size) rest last

end Span

/-- The data have the same bytes in a span. -/
def Bytes.AgreeIn (a b : Bytes) (span : Span) : Prop :=
  a.AgreeOn b span.offset span.size

end PublicAssembly
