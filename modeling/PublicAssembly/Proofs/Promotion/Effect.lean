import Mathlib.Algebra.GroupWithZero.Nat
import PublicAssembly.Batch.Publication
import PublicAssembly.Proofs.Module.Arena

/-!
# The effect of a promotion

A sweep over all ids of a module edits each type once. So a promotion over all types is one edit of
every type, `TypeDecl.publicized`: the last of its four sweeps finds nothing to do, because the
methods it looks at are public already. Emptying bodies is another such edit, and what becomes of a
module before it is written is both (`module_prepare`).

## Main statements

* `module_sweep_range`, `count_sweep_range`: what a sweep over all ids does and counts;
* `module_promote`, `counts_promote`: what a promotion of all types does and counts;
* `module_prepare`: what becomes of a module, as one edit of every type.
-/

namespace PublicAssembly

namespace Module

variable {κ : Type} [OfNat κ 0] [Add κ]

/-- A sweep over the last ids edits the last types and counts what each edit counts. -/
theorem sweep_range' (edit : TypeDecl → Edit κ) {m : Module} (before : List TypeDecl)
    {behind : List TypeDecl} (h : m.types.toList = before ++ behind) :
    (m.sweep edit (List.range' before.length behind.length)).module.types.toList =
        before ++ behind.map (fun d => (edit d).decl) ∧
      (m.sweep edit (List.range' before.length behind.length)).count =
        (behind.map fun d => (edit d).count).foldr (· + ·) 0 := by
  induction behind generalizing before m with
  | nil => simpa using h
  | cons decl behind ih =>
    have hget : m.get? before.length = some decl := by
      rw [get?, ← Array.getElem?_toList, h]
      simp
    -- the type after the edited ones is the one that is edited next
    have hset : (m.types.setIfInBounds before.length (edit decl).decl).toList =
        (before ++ [(edit decl).decl]) ++ behind := by
      rw [Array.toList_setIfInBounds, h]
      simp
    have hrest := ih (m := { m with
      types := m.types.setIfInBounds before.length (edit decl).decl }) _ hset
    rw [List.length_append, List.length_singleton] at hrest
    rw [List.length_cons, List.range'_succ, sweep, hget]
    constructor
    · simpa using hrest.1
    · simp [hrest.2]

/-- A sweep over all ids edits every type. -/
theorem module_sweep_range (edit : TypeDecl → Edit κ) {m : Module} {n : Nat} (hm : m.size = n) :
    (m.sweep edit (List.range n)).module = m.mapTypes fun d => (edit d).decl := by
  subst hm
  obtain ⟨-, hroots, hname, himage⟩ := sweep_frame edit (List.range m.size) m
  have htypes := (sweep_range' edit (m := m) [] rfl).1
  rw [List.length_nil, ← List.range_eq_range', Array.length_toList, List.nil_append] at htypes
  change (m.sweep edit (List.range m.size)).module.types.toList = _ at htypes
  -- the rest of the module is as before, so that the types decide
  generalize (m.sweep edit (List.range m.size)).module = swept at *
  obtain ⟨name, types, roots, image⟩ := swept
  simp only at hroots hname himage htypes
  subst hroots hname himage
  simp only [mapTypes]
  congr 1
  apply Array.toList_inj.1
  rw [htypes, Array.toList_map]

/-- A sweep over all ids counts what the edits of all types count. -/
theorem count_sweep_range (edit : TypeDecl → Edit κ) {m : Module} {n : Nat} (hm : m.size = n) :
    (m.sweep edit (List.range n)).count =
      (m.types.toList.map fun d => (edit d).count).foldr (· + ·) 0 := by
  subst hm
  have hcount := (sweep_range' edit (m := m) [] rfl).2
  rw [List.length_nil, ← List.range_eq_range', Array.length_toList] at hcount
  exact hcount

@[simp]
theorem size_mapTypes (f : TypeDecl → TypeDecl) (m : Module) : (m.mapTypes f).size = m.size := by
  simp [mapTypes, size]

/-- Two edits of all types are one. -/
theorem mapTypes_mapTypes (f g : TypeDecl → TypeDecl) (m : Module) :
    (m.mapTypes f).mapTypes g = m.mapTypes fun d => g (f d) := by
  simp [mapTypes, Function.comp_def]

end Module

namespace MethodDecl

@[simp]
theorem isPublic_promote (method : MethodDecl) : method.promote.isPublic = true := rfl

/-- A public method is promoted already. -/
theorem promote_of_isPublic {method : MethodDecl} (h : method.isPublic = true) :
    method.promote = method := by
  obtain ⟨token, name, access⟩ := method
  simp only [isPublic, beq_iff_eq] at h
  subst h
  rfl

/-- The method without its code, if `strip` asks for that. -/
def strippedIf (strip : Bool) (method : MethodDecl) : MethodDecl :=
  if strip then method.strip else method

end MethodDecl

/-- The field as a promotion leaves it: public unless the guard keeps it. -/
def FieldDecl.publicized (guard : Guard) (field : FieldDecl) : FieldDecl :=
  if guard.keeps field.name then field else field.promote

namespace TypeDecl

/-- The type as a promotion leaves it, when it is nested in another one or stands at the top. -/
def publicized (guard : Guard) (nested : Bool) (decl : TypeDecl) : TypeDecl :=
  { decl with
    visibility := if nested then .nestedPublic else .publicType
    methods := decl.methods.map MethodDecl.promote
    fields := decl.fields.map (FieldDecl.publicized guard) }

/-- The type without the code of its methods, if `strip` asks for that. -/
def strippedIf (strip : Bool) (decl : TypeDecl) : TypeDecl :=
  { decl with methods := decl.methods.map (MethodDecl.strippedIf strip) }

/-- A type that is not stripped stays. -/
@[simp]
theorem strippedIf_false (decl : TypeDecl) : decl.strippedIf false = decl := by
  have hkeep : MethodDecl.strippedIf false = id := rfl
  rw [strippedIf, hkeep, List.map_id]

/-- The first sweep changes the visibility alone. -/
theorem decl_promoteType (decl : TypeDecl) :
    decl.promoteType.decl = { decl with visibility := decl.publicVisibility } := by
  by_cases h : decl.visibility = decl.publicVisibility
  · simp [promoteType, ← h]
  · simp [promoteType, h]

/-- A promotion finds nothing to do at the accessors of a type whose methods are public. -/
theorem promoteAccessors_of_isPublic {decl : TypeDecl}
    (h : ∀ method ∈ decl.methods, method.isPublic = true) :
    decl.promoteAccessors.decl = decl ∧ decl.promoteAccessors.count = 0 := by
  -- a promoted method stays as it is, wherever a property looks for it
  have hhidden (place : Option Nat) : decl.hasHiddenMethod place = false := by
    unfold hasHiddenMethod
    split
    · rfl
    · next place =>
      split
      · next method hm => simp [h method (List.mem_of_getElem? hm)]
      · rfl
  have hmethods (place : Nat) : decl.methods.modify place MethodDecl.promote = decl.methods := by
    apply List.ext_getElem?
    intro i
    rw [List.getElem?_modify]
    cases hm : decl.methods[i]? with
    | none => split <;> rfl
    | some method => simp [MethodDecl.promote_of_isPublic (h method (List.mem_of_getElem? hm))]
  have hat (place : Option Nat) : decl.promoteMethodAt place = decl := by
    cases place with
    | none => rfl
    | some place => simp [promoteMethodAt, hmethods]
  rw [promoteAccessors]
  generalize decl.properties = properties
  induction properties with
  | nil => exact ⟨rfl, rfl⟩
  | cons property rest ih =>
    simp only [promoteAccessorsOf, hhidden, hat, Bool.false_eq_true, if_false, ih]
    exact ⟨trivial, rfl⟩

end TypeDecl

namespace PromotionCounts

theorem zero_eq : (0 : PromotionCounts) = ⟨0, 0, 0, 0, 0, 0⟩ := rfl

theorem mk_add_mk (a b c d e f a' b' c' d' e' f' : Nat) :
    (⟨a, b, c, d, e, f⟩ + ⟨a', b', c', d', e', f'⟩ : PromotionCounts) =
      ⟨a + a', b + b', c + c', d + d', e + e', f + f'⟩ := rfl

/-- Adding up counts is adding them up kind by kind. -/
theorem foldr_add (counts : List PromotionCounts) :
    counts.foldr (· + ·) 0 =
      ⟨(counts.map types).sum, (counts.map methods).sum, (counts.map fields).sum,
        (counts.map getters).sum, (counts.map setters).sum, (counts.map keptFields).sum⟩ := by
  induction counts with
  | nil => rfl
  | cons first rest ih =>
    rw [List.foldr_cons, ih]
    rfl

end PromotionCounts

namespace TypeDecl

/-- The first sweep counts the types whose visibility changes. -/
theorem count_promoteType (decl : TypeDecl) : decl.promoteType.count =
    ⟨if decl.visibility ≠ decl.publicVisibility then 1 else 0, 0, 0, 0, 0, 0⟩ := by
  by_cases h : decl.visibility = decl.publicVisibility <;>
    simp [promoteType, h, PromotionCounts.zero_eq]

/-- The second sweep counts the methods whose access changes. -/
theorem count_promoteMethods (decl : TypeDecl) : decl.promoteMethods.count =
    ⟨0, decl.methods.countP (!·.isPublic), 0, 0, 0, 0⟩ := rfl

/-- The third sweep counts the fields whose access changes, and those that are kept from it. -/
theorem count_promoteFields (guard : Guard) (decl : TypeDecl) :
    (decl.promoteFields guard).count =
      ⟨0, 0, decl.fields.countP fun field => !guard.keeps field.name && !field.isPublic, 0, 0,
        decl.fields.countP fun field => guard.keeps field.name && !field.isPublic⟩ := by
  simp [promoteFields, PromotionCounts.zero_eq, List.countP_eq_length_filter]

/-- After the second and the third sweep, the fourth one finds nothing to do. -/
theorem promoteAccessors_promoteFields (guard : Guard) (decl : TypeDecl) :
    (promoteFields guard decl.promoteMethods.decl).decl.promoteAccessors.decl =
        (promoteFields guard decl.promoteMethods.decl).decl ∧
      (promoteFields guard decl.promoteMethods.decl).decl.promoteAccessors.count = 0 := by
  refine promoteAccessors_of_isPublic fun method hmethod => ?_
  -- the second sweep made all methods public, and the third left them so
  simp only [promoteMethods, promoteFields, List.mem_map] at hmethod
  obtain ⟨method, -, rfl⟩ := hmethod
  exact method.isPublic_promote

end TypeDecl

namespace Module

/-- Counting one for each item that passes a test. -/
private theorem sum_map_ite {α : Type} (p : α → Bool) (items : List α) :
    (items.map fun item => if p item then 1 else 0).sum = items.countP p := by
  induction items with
  | nil => rfl
  | cons item rest ih =>
    rw [List.map_cons, List.sum_cons, ih, List.countP_cons, Nat.add_comm]

/-- A promotion over all ids leaves every type public with its members. -/
theorem module_promote {m : Module} {n : Nat} (hm : m.size = n) (guard : Guard) :
    (m.promote (List.range n) guard).module =
      m.mapTypes fun d => d.publicized guard d.isNested := by
  simp only [promote]
  rw [module_sweep_range TypeDecl.promoteType hm,
    module_sweep_range TypeDecl.promoteMethods (by simpa using hm),
    module_sweep_range (TypeDecl.promoteFields guard) (by simpa using hm),
    module_sweep_range TypeDecl.promoteAccessors (by simpa using hm),
    mapTypes_mapTypes, mapTypes_mapTypes, mapTypes_mapTypes]
  congr 1
  funext d
  rw [(TypeDecl.promoteAccessors_promoteFields guard d.promoteType.decl).1, TypeDecl.decl_promoteType]
  rfl

/-- What a promotion over all ids counts: the types whose visibility changes, the methods and the
fields whose access changes and the fields that are kept from it. The last sweep counts nothing. -/
theorem counts_promote {m : Module} {n : Nat} (hm : m.size = n) (guard : Guard) :
    (m.promote (List.range n) guard).count =
      { types := m.types.toList.countP fun d => d.visibility ≠ d.publicVisibility
        methods := (m.types.toList.map fun d => d.methods.countP (!·.isPublic)).sum
        fields := (m.types.toList.map fun d =>
          d.fields.countP fun field => !guard.keeps field.name && !field.isPublic).sum
        getters := 0
        setters := 0
        keptFields := (m.types.toList.map fun d =>
          d.fields.countP fun field => guard.keeps field.name && !field.isPublic).sum } := by
  simp only [promote]
  rw [module_sweep_range TypeDecl.promoteType hm,
    module_sweep_range TypeDecl.promoteMethods (by simpa using hm),
    module_sweep_range (TypeDecl.promoteFields guard) (by simpa using hm),
    count_sweep_range TypeDecl.promoteType hm,
    count_sweep_range TypeDecl.promoteMethods (by simpa using hm),
    count_sweep_range (TypeDecl.promoteFields guard) (by simpa using hm),
    count_sweep_range TypeDecl.promoteAccessors (by simpa using hm)]
  have haccessors (d : TypeDecl) :=
    (TypeDecl.promoteAccessors_promoteFields guard d.promoteType.decl).2
  simp only [mapTypes, Array.toList_map, List.map_map, Function.comp_def, haccessors,
    TypeDecl.count_promoteType, TypeDecl.count_promoteMethods, TypeDecl.count_promoteFields,
    PromotionCounts.foldr_add]
  -- each sweep counts kinds of its own, and what it counts is not changed by those before it
  simp only [TypeDecl.decl_promoteType, TypeDecl.promoteMethods]
  simp only [PromotionCounts.zero_eq, PromotionCounts.mk_add_mk]
  congr 1
  · rw [← sum_map_ite]
    simp
  all_goals simp

/-- The types found by the ids in order are the types in order. -/
theorem map_get?_range {m : Module} {n : Nat} (hm : m.size = n) :
    (List.range n).map m.get? = m.types.toList.map some := by
  subst hm
  apply List.ext_getElem
  · simp [size]
  · intro i hi _
    simp only [List.length_map, List.length_range, size] at hi
    simp [get?, hi]

/-- The event names over all ids are those of all types. -/
theorem eventNames_range {m : Module} {n : Nat} (hm : m.size = n) :
    Guard.eventNames m (List.range n) = m.types.toList.flatMap TypeDecl.events := by
  have hfound : Guard.eventNames m (List.range n) =
      ((List.range n).map m.get?).flatMap fun found => (found.map TypeDecl.events).getD [] := by
    rw [Guard.eventNames, List.flatMap_map]
    congr 1
    funext id
    cases m.get? id <;> rfl
  rw [hfound, map_get?_range hm, List.flatMap_map]
  rfl

/-- The names of the events of all types. -/
def eventNames (m : Module) : List String :=
  m.types.toList.flatMap TypeDecl.events

end Module

namespace Publication

/-- The names of the fields that the settings keep from being made public. -/
def keptNames (settings : PromotionSettings) (m : Module) : List String :=
  if settings.keepEventFields then m.eventNames else []

/-- The guard over all types keeps the names of their events, if the settings ask for a guard. -/
theorem keeps_guardOf (settings : PromotionSettings) {m : Module} {n : Nat} (hm : m.size = n)
    (horder : m.flatten = List.range n) (name : String) :
    (guardOf settings m m.flatten).keeps name = true ↔ name ∈ keptNames settings m := by
  rw [guardOf, keptNames]
  split
  · rw [Guard.keeps_ofEvents, horder, Module.eventNames_range hm, Module.eventNames]
  · simp

/-- What becomes of a module whose types are listed in the order of their ids: every type is
published with its members, and loses its code if the settings say so. -/
theorem module_prepare (settings : PromotionSettings) {m : Module} {n : Nat} (hm : m.size = n)
    (horder : m.flatten = List.range n) :
    (prepare settings m).module = m.mapTypes fun d =>
      (d.publicized (guardOf settings m m.flatten) d.isNested).strippedIf settings.stripBodies := by
  -- stripping comes second, and takes the code from the promoted types
  have hpromoted := Module.module_promote hm (guardOf settings m m.flatten)
  rw [← horder] at hpromoted
  cases hstrip : settings.stripBodies with
  | true =>
    simp only [prepare, hstrip, if_true, Module.strip, hpromoted]
    rw [horder, Module.module_sweep_range _ (by rw [Module.size_mapTypes, hm]),
      Module.mapTypes_mapTypes]
    rfl
  | false =>
    simp only [prepare, hstrip, hpromoted, TypeDecl.strippedIf_false]
    rfl

/-- Preparing the module of some trees edits the trees. -/
theorem module_prepare_ofTrees (settings : PromotionSettings) (name : String)
    (trees : List (Tree TypeDecl)) :
    (prepare settings (.ofTrees name trees)).module =
      .ofTrees name (Tree.mapNestedAll (fun nested decl =>
        (decl.publicized (guardOf settings (.ofTrees name trees) (Module.ofTrees name trees).flatten)
          nested).strippedIf settings.stripBodies) false trees) := by
  rw [module_prepare settings (Module.size_ofTrees name trees) (Module.flatten_ofTrees name trees)]
  set edit := fun nested (decl : TypeDecl) =>
    (decl.publicized (guardOf settings (.ofTrees name trees) (Module.ofTrees name trees).flatten)
      nested).strippedIf settings.stripBodies
  have hedit (nested : Bool) (decl : TypeDecl) (parent : Option Nat) (ids : List Nat) :
      edit nested (decl.linked parent ids) = (edit nested decl).linked parent ids := rfl
  exact Module.mapTypes_ofTrees hedit name trees

/-- What is counted when a module is prepared is what its promotion counts. -/
theorem counts_prepare (settings : PromotionSettings) (m : Module) :
    (prepare settings m).counts = (m.promote m.flatten (guardOf settings m m.flatten)).count := by
  by_cases hstrip : settings.stripBodies = true <;> simp [prepare, hstrip]

/-- The number of bodies that are emptied when a module is prepared: those of the methods with code,
if bodies are to be emptied at all. -/
theorem strippedBodies_prepare (settings : PromotionSettings) {m : Module} {n : Nat}
    (hm : m.size = n) (horder : m.flatten = List.range n) :
    (prepare settings m).strippedBodies =
      if settings.stripBodies then
        (m.types.toList.map fun d => d.methods.countP MethodDecl.hasCode).sum
      else 0 := by
  by_cases hstrip : settings.stripBodies = true
  · have hcount := Module.count_sweep_range TypeDecl.stripMethods (n := n)
      (m := (m.promote m.flatten (guardOf settings m m.flatten)).module)
      (by rw [horder, Module.module_promote hm, Module.size_mapTypes, hm])
    have hpromoted := Module.module_promote hm (guardOf settings m m.flatten)
    rw [← horder] at hcount hpromoted
    rw [if_pos hstrip, prepare, if_pos hstrip]
    refine hcount.trans ?_
    -- making a method public leaves its code
    rw [hpromoted, Module.mapTypes, Array.toList_map, List.map_map, List.sum]
    congr 2
    funext d
    simp only [Function.comp_apply, TypeDecl.stripMethods, TypeDecl.publicized, List.countP_map]
    rfl
  · simp [prepare, hstrip]

end Publication

end PublicAssembly
