import Mathlib.Algebra.BigOperators.Fin
import Mathlib.Data.List.Indexes
import PublicAssembly.Proofs.Promotion.Orders

/-!
# Edits of the listed types

A sweep over a list of ids whose edit finds nothing to do the second time edits each listed type
once (`Module.module_sweep`), however often and in whatever order the ids stand in the list. What it
counts is of two kinds. What an edit removes is counted once for each type; what an edit leaves is
counted again each time the id comes up.

## Main definitions

* `Module.mapListed`: the listed types edited, the others as they are;
* `Module.sumListed`, `Module.sumOccurring`: an amount summed over the listed types, and over the
  places of the list;
* `Module.sumChanges`: an amount of change summed over the types of two modules.

## Main statements

* `Module.module_sweep`, `Module.count_sweep`: what a sweep does and counts;
* `Module.sumChanges_mapListed`: what an edit of the listed types changes in a module;
* `Module.sumListed_append`: what one edit leaves for another one.
-/

namespace PublicAssembly.Module

variable {m : Module} {f g : TypeDecl → TypeDecl}

/-! ### Editing -/

/-- The module with the types of the listed ids edited; an unknown id is passed over. -/
def mapListed (order : List Nat) (f : TypeDecl → TypeDecl) (m : Module) : Module :=
  { m with types := m.types.mapIdx fun id decl => if id ∈ order then f decl else decl }

/-- The types after an edit of the listed ones, by their ids. -/
@[simp]
theorem get?_mapListed (order : List Nat) (f : TypeDecl → TypeDecl) (m : Module) (id : Nat) :
    (m.mapListed order f).get? id =
      (m.get? id).map fun decl => if id ∈ order then f decl else decl := by
  rw [get?, get?, mapListed, Array.getElem?_mapIdx]

/-- Two modules are the same if they have the same types and agree in all else. -/
theorem ext_get? {n : Module} (hname : m.name = n.name) (hroots : m.roots = n.roots)
    (himage : m.image = n.image) (htypes : ∀ id, m.get? id = n.get? id) : m = n := by
  obtain ⟨name, types, roots, image⟩ := m
  obtain ⟨name', types', roots', image'⟩ := n
  have hall : types = types' := Array.ext_getElem? htypes
  simp only at hname hroots himage
  subst hname hroots himage hall
  rfl

/-- Putting an edited type in its place is an edit of the types of one id. -/
theorem setIfInBounds_eq_mapListed {id : Nat} {decl : TypeDecl} (h : m.get? id = some decl)
    (f : TypeDecl → TypeDecl) :
    { m with types := m.types.setIfInBounds id (f decl) } = m.mapListed [id] f := by
  refine ext_get? rfl rfl rfl fun other => ?_
  rw [get?_mapListed]
  by_cases hother : other = id
  · subst hother
    have hroom : other < m.types.size := (Array.getElem?_eq_some_iff.1 h).1
    rw [h, get?, Array.getElem?_setIfInBounds_self_of_lt hroom]
    simp
  · rw [get?, Array.getElem?_setIfInBounds_ne (Ne.symm hother)]
    simp [hother, get?]

/-- Two edits of the listed types are one. -/
theorem mapListed_mapListed (order : List Nat) (f g : TypeDecl → TypeDecl) (m : Module) :
    (m.mapListed order f).mapListed order g = m.mapListed order fun decl => g (f decl) := by
  refine ext_get? rfl rfl rfl fun id => ?_
  rw [get?_mapListed, get?_mapListed, get?_mapListed, Option.map_map]
  congr 1
  funext decl
  by_cases hid : id ∈ order
  · simp only [Function.comp_apply, if_pos hid]
  · simp only [Function.comp_apply, if_neg hid]

/-- Edits that commute type by type commute on any two lists of types. -/
theorem mapListed_comm (hcomm : ∀ decl, g (f decl) = f (g decl)) (o₁ o₂ : List Nat) (m : Module) :
    (m.mapListed o₁ f).mapListed o₂ g = (m.mapListed o₂ g).mapListed o₁ f := by
  refine ext_get? rfl rfl rfl fun id => ?_
  simp only [get?_mapListed, Option.map_map]
  congr 1
  funext decl
  by_cases h₁ : id ∈ o₁
  · by_cases h₂ : id ∈ o₂
    · simp only [Function.comp_apply, if_pos h₁, if_pos h₂, hcomm]
    · simp only [Function.comp_apply, if_pos h₁, if_neg h₂]
  · simp only [Function.comp_apply, if_neg h₁]

/-- An edit that finds nothing to do the second time is made on two lists one after the other as on
both at once, also where they have types in common. -/
theorem mapListed_append (hagain : ∀ decl, f (f decl) = f decl) (o₁ o₂ : List Nat) (m : Module) :
    m.mapListed (o₁ ++ o₂) f = (m.mapListed o₁ f).mapListed o₂ f := by
  refine ext_get? rfl rfl rfl fun id => ?_
  simp only [get?_mapListed, Option.map_map, List.mem_append]
  congr 1
  funext decl
  by_cases h₁ : id ∈ o₁
  · by_cases h₂ : id ∈ o₂
    · simp only [Function.comp_apply, h₁, h₂, or_self, if_true, hagain]
    · simp only [Function.comp_apply, h₁, h₂, or_false, if_true, if_false]
  · simp only [Function.comp_apply, h₁, false_or, if_false]

/-- An edit that leaves the listed types of a module leaves the module. -/
theorem mapListed_eq_self {order : List Nat}
    (h : ∀ id ∈ order, ∀ decl, m.get? id = some decl → f decl = decl) :
    m.mapListed order f = m := by
  refine ext_get? rfl rfl rfl fun id => ?_
  rw [get?_mapListed]
  cases hdecl : m.get? id with
  | none => rfl
  | some decl =>
    by_cases hid : id ∈ order
    · rw [Option.map_some, if_pos hid, h id hid decl hdecl]
    · rw [Option.map_some, if_neg hid]

/-! ### Amounts -/

/-- The amount that `amount` says of the type of an id; nothing for an unknown id. -/
def amountAt (m : Module) (amount : TypeDecl → Nat) (id : Nat) : Nat :=
  (m.get? id).elim 0 amount

/-- An amount summed over the types of the listed ids, each type once. -/
def sumListed (m : Module) (order : List Nat) (amount : TypeDecl → Nat) : Nat :=
  ∑ id ∈ order.toFinset, m.amountAt amount id

/-- An amount summed over the places of a list of ids. -/
def sumOccurring (m : Module) (order : List Nat) (amount : TypeDecl → Nat) : Nat :=
  (order.map (m.amountAt amount)).sum

variable {amount : TypeDecl → Nat}

/-- There is nothing at an unknown id. -/
theorem amountAt_of_le {id : Nat} (h : m.types.size ≤ id) : m.amountAt amount id = 0 := by
  rw [amountAt, get?, Array.getElem?_eq_none h, Option.elim_none]

/-- An edit that leaves an amount leaves it wherever it stands. -/
theorem amountAt_mapListed (hamount : ∀ decl, amount (f decl) = amount decl) (order : List Nat)
    (id : Nat) : (m.mapListed order f).amountAt amount id = m.amountAt amount id := by
  rw [amountAt, amountAt, get?_mapListed]
  cases m.get? id with
  | none => rfl
  | some decl =>
    by_cases hid : id ∈ order
    · simp [hid, hamount]
    · simp [hid]

/-- An edit that removes an amount removes it where the id is listed. -/
theorem amountAt_mapListed_of_zero (hamount : ∀ decl, amount (f decl) = 0) (order : List Nat)
    (id : Nat) :
    (m.mapListed order f).amountAt amount id = if id ∈ order then 0 else m.amountAt amount id := by
  rw [amountAt, amountAt, get?_mapListed]
  cases m.get? id with
  | none => simp
  | some decl =>
    by_cases hid : id ∈ order
    · simp [hid, hamount]
    · simp [hid]

theorem sumListed_mapListed (hamount : ∀ decl, amount (f decl) = amount decl)
    (o₁ o₂ : List Nat) (m : Module) :
    (m.mapListed o₁ f).sumListed o₂ amount = m.sumListed o₂ amount := by
  unfold sumListed
  exact Finset.sum_congr rfl fun id _ => amountAt_mapListed hamount o₁ id

theorem sumOccurring_mapListed (hamount : ∀ decl, amount (f decl) = amount decl)
    (o₁ o₂ : List Nat) (m : Module) :
    (m.mapListed o₁ f).sumOccurring o₂ amount = m.sumOccurring o₂ amount := by
  unfold sumOccurring
  congr 2
  funext id
  exact amountAt_mapListed hamount o₁ id

/-- What is removed from the types of two lists is removed from those of the first and then from
what is left in those of the second. -/
theorem sumListed_append (hamount : ∀ decl, amount (f decl) = 0) (o₁ o₂ : List Nat) (m : Module) :
    m.sumListed (o₁ ++ o₂) amount =
      m.sumListed o₁ amount + (m.mapListed o₁ f).sumListed o₂ amount := by
  -- only the types that the first list does not name have something left
  have hrest : (m.mapListed o₁ f).sumListed o₂ amount =
      ∑ id ∈ o₂.toFinset \ o₁.toFinset, m.amountAt amount id := by
    unfold sumListed
    rw [Finset.sdiff_eq_filter, Finset.sum_filter]
    refine Finset.sum_congr rfl fun id _ => ?_
    rw [amountAt_mapListed_of_zero hamount]
    by_cases hid : id ∈ o₁
    · simp [hid]
    · simp [hid]
  rw [hrest, sumListed, sumListed, List.toFinset_append, ← Finset.union_sdiff_self_eq_union,
    Finset.sum_union Finset.disjoint_sdiff]

theorem sumOccurring_append (o₁ o₂ : List Nat) (m : Module) (amount : TypeDecl → Nat) :
    m.sumOccurring (o₁ ++ o₂) amount = m.sumOccurring o₁ amount + m.sumOccurring o₂ amount := by
  rw [sumOccurring, List.map_append, List.sum_append]
  rfl

/-- Nothing is left to be removed from the types of a list that was gone over. -/
theorem sumListed_of_subset (hamount : ∀ decl, amount (f decl) = 0) {order again : List Nat}
    (hagain : again ⊆ order) (m : Module) : (m.mapListed order f).sumListed again amount = 0 := by
  unfold sumListed
  refine Finset.sum_eq_zero fun id hid => ?_
  rw [amountAt_mapListed_of_zero hamount, if_pos (hagain (List.mem_toFinset.1 hid))]

/-! ### Changes -/

/-- An amount of change summed over the types of two modules, each with the one of the same id. -/
def sumChanges (change : TypeDecl → TypeDecl → Nat) (before after : Module) : Nat :=
  (List.zipWith change before.types.toList after.types.toList).sum

/-- An edit of the listed types changes what it changes in each of them. -/
theorem sumChanges_mapListed {change : TypeDecl → TypeDecl → Nat}
    (hsame : ∀ decl, change decl decl = 0) (order : List Nat) (f : TypeDecl → TypeDecl)
    (m : Module) :
    sumChanges change m (m.mapListed order f) =
      m.sumListed order fun decl => change decl (f decl) := by
  have hzip : List.zipWith change m.types.toList (m.mapListed order f).types.toList =
      m.types.toList.mapIdx fun id decl => if id ∈ order then change decl (f decl) else 0 := by
    apply List.ext_getElem?
    intro id
    rw [mapListed, Array.toList_mapIdx, List.getElem?_zipWith, List.getElem?_mapIdx,
      List.getElem?_mapIdx]
    cases m.types.toList[id]? with
    | none => rfl
    | some decl =>
      by_cases hid : id ∈ order
      · simp [hid]
      · simp [hid, hsame]
  have hsum : (List.zipWith change m.types.toList (m.mapListed order f).types.toList).sum =
      ∑ id ∈ Finset.range m.types.size,
        if id ∈ order.toFinset then m.amountAt (fun decl => change decl (f decl)) id else 0 := by
    rw [hzip, List.mapIdx_eq_ofFn, List.sum_ofFn, Finset.sum_range]
    refine Finset.sum_congr rfl fun id _ => ?_
    simp [amountAt, get?]
  rw [sumChanges, hsum, Finset.sum_ite_mem]
  -- the ids of the list that are left out are unknown ones
  refine Finset.sum_subset Finset.inter_subset_right fun id hlisted hid => ?_
  have hunknown : m.types.size ≤ id := by
    by_contra hknown
    exact hid (Finset.mem_inter.2 ⟨Finset.mem_range.2 (Nat.not_le.1 hknown), hlisted⟩)
  exact amountAt_of_le hunknown

/-! ### Sweeps -/

section Sweeps

variable {κ : Type} [OfNat κ 0] [Add κ] {edit : TypeDecl → Edit κ}

/-- A sweep with an edit that finds nothing to do the second time edits the listed types. -/
theorem module_sweep (hagain : ∀ decl, (edit (edit decl).decl).decl = (edit decl).decl)
    (order : List Nat) (m : Module) :
    (m.sweep edit order).module = m.mapListed order fun decl => (edit decl).decl := by
  obtain ⟨-, hroots, hname, himage⟩ := sweep_frame edit order m
  refine ext_get? hname hroots himage fun id => ?_
  rw [get?_sweep hagain, get?_mapListed]

/-- What a sweep counts, when each edit counts what it removes and what it leaves: the first once
for each listed type, the second each time an id comes up. -/
theorem count_sweep (removed left : TypeDecl → Nat) (count : Nat → Nat → κ) (hzero : count 0 0 = 0)
    (hadd : ∀ a b a' b', count a b + count a' b' = count (a + a') (b + b'))
    (hcount : ∀ decl, (edit decl).count = count (removed decl) (left decl))
    (hremoved : ∀ decl, removed (edit decl).decl = 0)
    (hleft : ∀ decl, left (edit decl).decl = left decl) (order : List Nat) (m : Module) :
    (m.sweep edit order).count = count (m.sumListed order removed) (m.sumOccurring order left) := by
  -- along the list: what is removed at its first id is not there when the id comes up again
  induction order generalizing m with
  | nil => exact hzero.symm
  | cons id order ih =>
    rw [sweep]
    cases hdecl : m.get? id with
    | none =>
      have hnone (amount : TypeDecl → Nat) : m.amountAt amount id = 0 := by
        rw [amountAt, hdecl, Option.elim_none]
      dsimp only
      rw [ih, sumListed, sumListed, List.toFinset_cons, Finset.sum_insert_of_eq_zero_if_notMem
        fun _ => hnone removed, sumOccurring, sumOccurring, List.map_cons, List.sum_cons,
        hnone left, Nat.zero_add]
    | some decl =>
      dsimp only
      rw [setIfInBounds_eq_mapListed hdecl fun decl => (edit decl).decl, ih, hcount, hadd,
        sumOccurring_mapListed hleft]
      have hfirst : m.sumListed [id] removed = removed decl := by
        simp [sumListed, amountAt, hdecl]
      have hsum := sumListed_append hremoved [id] order m
      rw [List.singleton_append, hfirst] at hsum
      rw [hsum, sumOccurring, sumOccurring, List.map_cons, List.sum_cons, amountAt, hdecl,
        Option.elim_some]

/-- A sweep with an edit that finds nothing to do at the listed types leaves the module. -/
theorem sweep_of_idle (hzero : (0 : κ) + 0 = 0) {order : List Nat}
    (hidle : ∀ id ∈ order, ∀ decl, m.get? id = some decl →
      (edit decl).decl = decl ∧ (edit decl).count = 0) :
    (m.sweep edit order).module = m ∧ (m.sweep edit order).count = 0 := by
  induction order with
  | nil => exact ⟨rfl, rfl⟩
  | cons id order ih =>
    have hrest := ih fun other hother => hidle other (List.mem_cons_of_mem _ hother)
    rw [sweep]
    cases hdecl : m.get? id with
    | none => exact hrest
    | some decl =>
      obtain ⟨hsame, hcount⟩ := hidle id List.mem_cons_self decl hdecl
      -- putting back the type that is there changes nothing
      have hback : { m with types := m.types.setIfInBounds id decl } = m := by
        rw [setIfInBounds_eq_mapListed hdecl fun decl => decl]
        exact mapListed_eq_self fun _ _ _ _ => rfl
      dsimp only
      rw [hsame, hback, hcount, hrest.2]
      exact ⟨hrest.1, hzero⟩

end Sweeps

end PublicAssembly.Module
