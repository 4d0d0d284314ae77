import Mathlib.Data.List.Basic
import Mathlib.Data.List.Forall2

/-!
# What it takes for a reading to succeed

The readers of this library stop at the first fault. These lemmas turn "the reading gives this
value" into what each of its steps gives, so that no proof has to look at how faults are passed on.
-/

namespace PublicAssembly.Reading

variable {α β ε : Type}

/-- Two steps succeed if the first gives a value with which the second succeeds. -/
@[simp]
theorem bind_eq_ok_iff {first : Except ε α} {next : α → Except ε β} {b : β} :
    (first >>= next) = .ok b ↔ ∃ a, first = .ok a ∧ next a = .ok b := by
  cases first <;> simp [bind, Except.bind]

/-- Two steps fail if the first does, or the second does with what the first gives. -/
theorem bind_eq_error_iff {first : Except ε α} {next : α → Except ε β} {fault : ε} :
    (first >>= next) = .error fault ↔
      first = .error fault ∨ ∃ a, first = .ok a ∧ next a = .error fault := by
  cases first <;> simp [bind, Except.bind]

@[simp]
theorem pure_eq_ok_iff {a b : α} : (pure a : Except ε α) = .ok b ↔ a = b := by
  simp [pure, Except.pure]

@[simp]
theorem ok_bind (a : α) (next : α → Except ε β) : ((.ok a : Except ε α) >>= next) = next a := rfl

@[simp]
theorem throw_eq (fault : ε) : (throw fault : Except ε α) = .error fault := rfl

@[simp]
theorem error_bind (fault : ε) (next : α → Except ε β) :
    ((.error fault : Except ε α) >>= next) = .error fault := rfl

/-- A reading whose result is rewritten succeeds if it does. -/
@[simp]
theorem map_eq_ok_iff {f : α → β} {read : Except ε α} {b : β} :
    (f <$> read) = .ok b ↔ ∃ a, read = .ok a ∧ f a = b := by
  cases read <;> simp [Functor.map, Except.map]

@[simp]
theorem ok_mapError {δ : Type} (a : α) (cause : ε → δ) :
    (.ok a : Except ε α).mapError cause = .ok a := rfl

/-- A reading whose fault is rewritten succeeds if it does. -/
theorem mapError_eq_ok_iff {δ : Type} {cause : ε → δ} {read : Except ε α} {a : α} :
    read.mapError cause = .ok a ↔ read = .ok a := by
  cases read <;> simp [Except.mapError]

/-- A reading whose fault is rewritten fails for a rewritten reason. -/
theorem mapError_eq_error_iff {δ : Type} {cause : ε → δ} {read : Except ε α} {fault : δ} :
    read.mapError cause = .error fault ↔ ∃ reason, read = .error reason ∧ cause reason = fault := by
  cases read <;> simp [Except.mapError]

/-- A guarded reading succeeds if the guard lets it pass. -/
@[simp]
theorem ite_error_eq_ok_iff {c : Prop} [Decidable c] {fault : ε} {rest : Except ε α} {a : α} :
    (if c then .error fault else rest) = .ok a ↔ ¬ c ∧ rest = .ok a := by
  by_cases h : c <;> simp [h]

/-- A reading under a condition succeeds if the condition holds. -/
@[simp]
theorem ite_ok_error_eq_ok_iff {c : Prop} [Decidable c] {fault : ε} {a b : α} :
    (if c then (Except.ok a : Except ε α) else .error fault) = .ok b ↔ c ∧ a = b := by
  by_cases h : c <;> simp [h]

/-- Readings one after another succeed if each does. -/
theorem mapM_eq_ok_iff {read : α → Except ε β} {items : List α} {found : List β} :
    items.mapM read = .ok found ↔ items.map read = found.map .ok := by
  induction items generalizing found with
  | nil => cases found <;> simp
  | cons item rest ih =>
    rw [List.mapM_cons]
    cases found with
    | nil => simp
    | cons first others => simp [ih]

/-- Readings one after another succeed for some result if each does for its own. -/
theorem exists_mapM_eq_ok_iff {read : α → Except ε β} {items : List α} :
    (∃ found, items.mapM read = .ok found) ↔ ∀ item ∈ items, ∃ b, read item = .ok b := by
  induction items with
  | nil => simp
  | cons item rest ih =>
    simp only [List.mapM_cons, bind_eq_ok_iff, pure_eq_ok_iff, List.forall_mem_cons, ← ih]
    constructor
    · rintro ⟨-, b, hb, found, hfound, -⟩
      exact ⟨⟨b, hb⟩, found, hfound⟩
    · rintro ⟨⟨b, hb⟩, found, hfound⟩
      exact ⟨b :: found, b, hb, found, hfound, rfl⟩

/-- If each item can be written, all can, every output belongs to an item, and every item has its
output. -/
theorem exists_mapM (items : List α) (write : α → Except ε β) (belongs : α → β → Prop)
    (hwrite : ∀ item ∈ items, ∃ out, write item = .ok out ∧ belongs item out) :
    ∃ outs, items.mapM write = .ok outs ∧
      (∀ out ∈ outs, ∃ item ∈ items, belongs item out) ∧
      ∀ item ∈ items, ∃ out ∈ outs, belongs item out := by
  induction items with
  | nil => exact ⟨[], rfl, by simp, by simp⟩
  | cons item rest ih =>
    rw [List.forall_mem_cons] at hwrite
    obtain ⟨out, hout, hbelongs⟩ := hwrite.1
    obtain ⟨outs, houts, hfrom, hto⟩ := ih hwrite.2
    refine ⟨out :: outs, by simp [hout, houts], ?_, ?_⟩
    · rw [List.forall_mem_cons]
      refine ⟨⟨item, List.mem_cons_self, hbelongs⟩, fun o ho => ?_⟩
      obtain ⟨i, hi, hio⟩ := hfrom o ho
      exact ⟨i, List.mem_cons_of_mem _ hi, hio⟩
    · rw [List.forall_mem_cons]
      refine ⟨⟨out, List.mem_cons_self, hbelongs⟩, fun i hi => ?_⟩
      obtain ⟨o, ho, hio⟩ := hto i hi
      exact ⟨o, List.mem_cons_of_mem _ ho, hio⟩

/-- What is made of the items that were read is made of the items. -/
theorem mapM_of_mapM {γ : Type} {read : α → Except ε β} (write : β → Except ε γ) {items : List α}
    {found : List β} (hread : items.mapM read = .ok found) :
    found.map write = items.map fun item => read item >>= write := by
  have hmap := congrArg (List.map (· >>= write)) (mapM_eq_ok_iff.1 hread)
  rw [List.map_map, List.map_map] at hmap
  exact hmap.symm

/-- Items that can be read can be read by another reading that edits what the first one gives. -/
theorem mapM_eq_map_of_mapM {read other : α → Except ε β} {edit : β → β} {items : List α}
    {found : List β} (hread : items.mapM read = .ok found)
    (hother : ∀ item ∈ items, ∀ b, read item = .ok b → other item = .ok (edit b)) :
    items.mapM other = .ok (found.map edit) := by
  induction items generalizing found with
  | nil =>
    cases hread
    rfl
  | cons item rest ih =>
    rw [List.forall_mem_cons] at hother
    simp only [List.mapM_cons, bind_eq_ok_iff, pure_eq_ok_iff] at hread ⊢
    obtain ⟨b, hb, others, hothers, rfl⟩ := hread
    exact ⟨_, hother.1 b hb, _, ih hothers hother.2, rfl⟩

/-- What is said of the items that were read is said of the items. -/
theorem map_eq_of_mapM {γ : Type} {read : α → Except ε β} {f : α → γ} {g : β → γ} {items : List α}
    {found : List β} (hread : items.mapM read = .ok found)
    (h : ∀ item b, read item = .ok b → g b = f item) : found.map g = items.map f := by
  induction items generalizing found with
  | nil =>
    cases hread
    rfl
  | cons item rest ih =>
    simp only [List.mapM_cons, bind_eq_ok_iff, pure_eq_ok_iff] at hread
    obtain ⟨b, hb, others, hothers, rfl⟩ := hread
    rw [List.map_cons, List.map_cons, h item b hb, ih hothers]

/-- What holds between every item and what is read of it holds between the two lists, place by
place. -/
theorem forall₂_of_mapM {read : α → Except ε β} {R : α → β → Prop} {items : List α}
    {found : List β} (hread : items.mapM read = .ok found)
    (h : ∀ item b, read item = .ok b → R item b) : List.Forall₂ R items found := by
  induction items generalizing found with
  | nil =>
    cases hread
    exact .nil
  | cons item rest ih =>
    simp only [List.mapM_cons, bind_eq_ok_iff, pure_eq_ok_iff] at hread
    obtain ⟨b, hb, others, hothers, rfl⟩ := hread
    exact .cons (h item b hb) (ih hothers)

/-- The reading succeeds with a value that passes a test. -/
def okAnd (p : β → Bool) : Except ε β → Bool
  | .ok b => p b
  | .error _ => false

theorem okAnd_eq_true_iff {p : β → Bool} {read : Except ε β} :
    okAnd p read = true ↔ ∃ b, read = .ok b ∧ p b = true := by
  cases read <;> simp [okAnd]

/-- What is counted of the items that were read is counted of the items. -/
theorem countP_mapM {read : α → Except ε β} (p : β → Bool) {items : List α} {found : List β}
    (hread : items.mapM read = .ok found) :
    found.countP p = items.countP fun item => okAnd p (read item) := by
  have hcount := congrArg (List.countP (okAnd p)) (mapM_eq_ok_iff.1 hread)
  rw [List.countP_map, List.countP_map] at hcount
  exact hcount.symm

/-- Items that are read and then written: if each can be written, all can, every output belongs to
an item, and every item has its output. -/
theorem exists_mapM_of_mapM {γ : Type} {read : α → Except ε β} (write : β → Except ε γ)
    (belongs : α → γ → Prop) {items : List α} {found : List β}
    (hread : items.mapM read = .ok found)
    (hwrite : ∀ item ∈ items, ∀ b, read item = .ok b →
      ∃ out, write b = .ok out ∧ belongs item out) :
    ∃ outs, found.mapM write = .ok outs ∧
      (∀ out ∈ outs, ∃ item ∈ items, belongs item out) ∧
      ∀ item ∈ items, ∃ out ∈ outs, belongs item out := by
  have hboth : ∀ item ∈ items, ∃ out, (read item >>= write) = .ok out ∧ belongs item out := by
    intro item hitem
    obtain ⟨b, hb⟩ := exists_mapM_eq_ok_iff.1 ⟨found, hread⟩ item hitem
    rw [hb, ok_bind]
    exact hwrite item hitem b hb
  obtain ⟨outs, houts, hbelong⟩ := exists_mapM items _ belongs hboth
  refine ⟨outs, ?_, hbelong⟩
  rw [mapM_eq_ok_iff, mapM_of_mapM write hread]
  exact mapM_eq_ok_iff.1 houts

/-- What was read was read of some item. -/
theorem mem_mapM_iff {read : α → Except ε β} {items : List α} {found : List β}
    (h : items.mapM read = .ok found) {b : β} :
    b ∈ found ↔ ∃ item ∈ items, read item = .ok b := by
  rw [← List.mem_map, mapM_eq_ok_iff.1 h, List.mem_map]
  simp

/-- Every item was read. -/
theorem exists_mem_of_mapM {read : α → Except ε β} {items : List α} {found : List β}
    (h : items.mapM read = .ok found) {item : α} (hitem : item ∈ items) :
    ∃ b, read item = .ok b ∧ b ∈ found := by
  obtain ⟨b, hb⟩ := exists_mapM_eq_ok_iff.1 ⟨found, h⟩ item hitem
  exact ⟨b, hb, (mem_mapM_iff h).2 ⟨item, hitem, hb⟩⟩

/-- What the items of a list are read as, found by position. -/
theorem getElem?_mapM {read : α → Except ε β} {items : List α} {found : List β}
    (h : items.mapM read = .ok found) (i : Nat) :
    items[i]?.map read = found[i]?.map .ok := by
  have hmap := congrArg (·[i]?) (mapM_eq_ok_iff.1 h)
  simpa using hmap

end PublicAssembly.Reading
