/-!
# Visibility and access

Types and members carry flag words whose low three bits say who may use them; the other bits are
attributes. `withLow` replaces the low bits and keeps the others, and reading the low bits of the
result gives back what was put there.
-/

namespace PublicAssembly

/-- The number whose low three bits are those of `bits` and whose others are those of `word`. -/
def withLow (word bits : Nat) : Nat :=
  word / 8 * 8 + bits % 8

@[simp]
theorem withLow_mod (word bits : Nat) : withLow word bits % 8 = bits % 8 := by
  simp only [withLow]
  omega

@[simp]
theorem withLow_withLow (word a b : Nat) : withLow (withLow word a) b = withLow word b := by
  simp only [withLow]
  omega

/-- Putting back the low bits changes nothing. -/
theorem withLow_self (word : Nat) : withLow word (word % 8) = word := by
  simp only [withLow]
  omega

/-- Who may use a type. -/
inductive Visibility where
  | notPublic
  | publicType
  | nestedPublic
  | nestedPrivate
  | nestedFamily
  | nestedAssembly
  | nestedFamAndAssem
  | nestedFamOrAssem
  deriving DecidableEq, Repr

namespace Visibility

/-- The low three bits that stand for the visibility. -/
def bits : Visibility → Nat
  | notPublic => 0
  | publicType => 1
  | nestedPublic => 2
  | nestedPrivate => 3
  | nestedFamily => 4
  | nestedAssembly => 5
  | nestedFamAndAssem => 6
  | nestedFamOrAssem => 7

/-- Every visibility, in the order of its bits. -/
def all : List Visibility := [
  notPublic, publicType, nestedPublic, nestedPrivate, nestedFamily, nestedAssembly, nestedFamAndAssem,
  nestedFamOrAssem]

/-- The visibility that the low three bits of a flag word stand for. -/
def ofFlags (flags : Nat) : Visibility :=
  match flags % 8 with
  | 0 => notPublic
  | 1 => publicType
  | 2 => nestedPublic
  | 3 => nestedPrivate
  | 4 => nestedFamily
  | 5 => nestedAssembly
  | 6 => nestedFamAndAssem
  | _ => nestedFamOrAssem

/-- The visibility is the one that the low bits say. -/
theorem bits_ofFlags (flags : Nat) : (ofFlags flags).bits = flags % 8 := by
  have : flags % 8 < 8 := Nat.mod_lt _ (by decide)
  unfold ofFlags
  grind [bits]

/-- A visibility is read back from its bits. -/
theorem ofFlags_bits (v : Visibility) : ofFlags v.bits = v := by
  cases v <;> rfl

/-- The name in a document. -/
def key : Visibility → String
  | notPublic => "not_public"
  | publicType => "public"
  | nestedPublic => "nested_public"
  | nestedPrivate => "nested_private"
  | nestedFamily => "nested_family"
  | nestedAssembly => "nested_assembly"
  | nestedFamAndAssem => "nested_fam_and_assem"
  | nestedFamOrAssem => "nested_fam_or_assem"

/-- The visibility of a name in a document. -/
def ofKey? (key : String) : Option Visibility :=
  all.find? fun v => v.key == key

/-- Each visibility has a name of its own. -/
theorem ofKey?_key (v : Visibility) : ofKey? v.key = some v := by
  cases v <;> decide

/-- The name in a log line. -/
def label : Visibility → String
  | notPublic => "NotPublic"
  | publicType => "Public"
  | nestedPublic => "NestedPublic"
  | nestedPrivate => "NestedPrivate"
  | nestedFamily => "NestedFamily"
  | nestedAssembly => "NestedAssembly"
  | nestedFamAndAssem => "NestedFamAndAssem"
  | nestedFamOrAssem => "NestedFamOrAssem"

end Visibility

/-- Who may use a method or a field. -/
inductive Access where
  | compilerControlled
  | privateMember
  | famAndAssem
  | assembly
  | family
  | famOrAssem
  | publicMember
  deriving DecidableEq, Repr

namespace Access

/-- The low three bits that stand for the access. -/
def bits : Access → Nat
  | compilerControlled => 0
  | privateMember => 1
  | famAndAssem => 2
  | assembly => 3
  | family => 4
  | famOrAssem => 5
  | publicMember => 6

/-- Every access, in the order of its bits. -/
def all : List Access := [
  compilerControlled, privateMember, famAndAssem, assembly, family, famOrAssem, publicMember]

/-- The access that the low three bits of a flag word stand for; the value 7 is reserved. -/
def ofFlags? (flags : Nat) : Option Access :=
  match flags % 8 with
  | 0 => some compilerControlled
  | 1 => some privateMember
  | 2 => some famAndAssem
  | 3 => some assembly
  | 4 => some family
  | 5 => some famOrAssem
  | 6 => some publicMember
  | _ => none

/-- The access is the one that the low bits say. -/
theorem bits_of_ofFlags? {flags : Nat} {access : Access} (h : ofFlags? flags = some access) :
    access.bits = flags % 8 := by
  simp only [ofFlags?] at h
  split at h <;> simp_all [bits] <;> subst h <;> rfl

/-- An access is read back from its bits. -/
theorem ofFlags?_bits (access : Access) : ofFlags? access.bits = some access := by
  cases access <;> rfl

/-- The name in a document. -/
def key : Access → String
  | compilerControlled => "compiler_controlled"
  | privateMember => "private"
  | famAndAssem => "fam_and_assem"
  | assembly => "assembly"
  | family => "family"
  | famOrAssem => "fam_or_assem"
  | publicMember => "public"

/-- The access of a name in a document. -/
def ofKey? (key : String) : Option Access :=
  all.find? fun access => access.key == key

/-- Each access has a name of its own. -/
theorem ofKey?_key (access : Access) : ofKey? access.key = some access := by
  cases access <;> decide

end Access

end PublicAssembly
