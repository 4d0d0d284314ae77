import PublicAssembly.Proofs.Promotion.Effect

/-!
# Sweeps over any list of ids

The ids of a sweep may come in any order, some of them twice, and some may be unknown. Whatever
every edit keeps is kept by the sweep, and an edit that finds nothing to do the second time is made
once for each listed type.

## Main statements

* `Module.get?_sweep`, `Module.get?_strip`: the types after a sweep, by their ids;
* `Module.module_sweep_eq_mapTypes`: a sweep as an edit of all types;
* `Module.forall_types_sweep`: what all types have and every edit keeps is had after a sweep;
* `Module.forall_types_promote`, `Module.forall_types_strip`: the same for promotion and stripping.
-/

namespace PublicAssembly

namespace Module

variable {κ : Type} [OfNat κ 0] [Add κ]

/-- A sweep with an edit that finds nothing to do the second time edits the listed types once and
leaves the others. -/
theorem get?_sweep {edit : TypeDecl → Edit κ}
    (hagain : ∀ decl, (edit (edit decl).decl).decl = (edit decl).decl) (order : List Nat) (m : Module)
    (id : Nat) : (m.sweep edit order).module.get? id =
      (m.get? id).map fun decl => if id ∈ order then (edit decl).decl else decl := by
  induction order generalizing m with
  | nil => simp
  | cons first order ih =>
    rw [sweep]
    split
    · next hnone =>
      -- an unknown id is that of no type
      rw [ih]
      by_cases hid : id = first
      · rw [hid, hnone, Option.map_none, Option.map_none]
      · simp only [List.mem_cons, hid, false_or]
    · next found hfound =>
      rw [ih]
      by_cases hid : id = first
      · subst hid
        have hroom : id < m.types.size := (Array.getElem?_eq_some_iff.1 hfound).1
        rw [hfound, get?, Array.getElem?_setIfInBounds_self_of_lt hroom]
        simp [hagain]
      · rw [get?, Array.getElem?_setIfInBounds_ne (Ne.symm hid)]
        simp only [List.mem_cons, hid, false_or]
        rfl

/-- A sweep that edits the type of each id alike is an edit of all types. -/
theorem module_sweep_eq_mapTypes {edit : TypeDecl → Edit κ} {order : List Nat} {m : Module}
    {f : TypeDecl → TypeDecl}
    (h : ∀ id, (m.sweep edit order).module.get? id = (m.get? id).map f) :
    (m.sweep edit order).module = m.mapTypes f := by
  obtain ⟨-, hroots, hname, himage⟩ := sweep_frame edit order m
  have htypes : (m.sweep edit order).module.types = m.types.map f :=
    Array.ext_getElem? fun id => (h id).trans Array.getElem?_map.symm
  generalize (m.sweep edit order).module = swept at *
  obtain ⟨name, types, roots, image⟩ := swept
  simp only at hroots hname himage htypes
  subst hroots hname himage htypes
  rfl

/-- What all types of a module have, and every edit keeps, they have after a sweep. -/
theorem forall_types_sweep (edit : TypeDecl → Edit κ) {P : TypeDecl → Prop}
    (hedit : ∀ decl, P decl → P (edit decl).decl) (order : List Nat) {m : Module}
    (h : ∀ decl ∈ m.types, P decl) : ∀ decl ∈ (m.sweep edit order).module.types, P decl := by
  induction order generalizing m with
  | nil => exact h
  | cons id order ih =>
    rw [sweep]
    split
    · exact ih h
    · next found hfound =>
      have hmem : found ∈ m.types := Array.mem_of_getElem? hfound
      refine ih fun decl hdecl => ?_
      -- a type is one of those before, or the one that was just edited
      rcases Array.mem_or_eq_of_mem_setIfInBounds hdecl with hold | rfl
      · exact h decl hold
      · exact hedit found (h found hmem)

end Module

namespace TypeDecl

variable {P : TypeDecl → Prop}

/-- What does not depend on the access of methods is kept when accessors are made public. -/
theorem promoteAccessors_induction
    (hmethods : ∀ decl place, P decl →
      P { decl with methods := decl.methods.modify place MethodDecl.promote })
    {decl : TypeDecl} (h : P decl) : P decl.promoteAccessors.decl := by
  have hat (place : Option Nat) {decl : TypeDecl} (h : P decl) : P (decl.promoteMethodAt place) := by
    cases place with
    | none => exact h
    | some place => exact hmethods decl place h
  rw [promoteAccessors]
  generalize decl.properties = properties
  induction properties generalizing decl with
  | nil => exact h
  | cons property rest ih => exact ih (hat _ (hat _ h))

end TypeDecl

/-- A method without its code has none to lose. -/
theorem MethodDecl.strip_strip (method : MethodDecl) : method.strip.strip = method.strip := by
  rw [strip, strip, Option.map_map]
  rfl

namespace Module

/-- A stripping empties the code of the types of its ids and leaves the others. -/
theorem get?_strip (order : List Nat) (m : Module) (id : Nat) :
    (m.strip order).module.get? id =
      (m.get? id).map (TypeDecl.strippedIf (decide (id ∈ order))) := by
  rw [strip, get?_sweep fun decl => by
    simp [TypeDecl.stripMethods, Function.comp_def, MethodDecl.strip_strip]]
  congr 1
  funext decl
  split
  · next hid =>
    rw [decide_eq_true hid]
    rfl
  · next hid => rw [decide_eq_false hid, TypeDecl.strippedIf_false]

variable {P : TypeDecl → Prop} {m : Module}

/-- What all types of a module have is had after a promotion, if it is kept by every change that a
promotion makes. -/
theorem forall_types_promote
    (hvisibility : ∀ decl visibility, P decl → P { decl with visibility })
    (hmethods : ∀ decl, P decl → P { decl with methods := decl.methods.map MethodDecl.promote })
    (haccessor : ∀ decl place, P decl →
      P { decl with methods := decl.methods.modify place MethodDecl.promote })
    (guard : Guard)
    (hfields : ∀ decl, P decl →
      P { decl with fields := decl.fields.map (FieldDecl.publicized guard) })
    (order : List Nat) (h : ∀ decl ∈ m.types, P decl) :
    ∀ decl ∈ (m.promote order guard).module.types, P decl := by
  have htypes := forall_types_sweep TypeDecl.promoteType
    (fun decl hdecl => by
      rw [TypeDecl.decl_promoteType]
      exact hvisibility decl _ hdecl) order h
  have hall := forall_types_sweep TypeDecl.promoteMethods hmethods order htypes
  have hkept := forall_types_sweep (TypeDecl.promoteFields guard) hfields order hall
  exact forall_types_sweep TypeDecl.promoteAccessors
    (fun _ => TypeDecl.promoteAccessors_induction haccessor) order hkept

/-- What all types of a module have is had after a stripping, if it is kept when code is emptied. -/
theorem forall_types_strip
    (hmethods : ∀ decl, P decl → P { decl with methods := decl.methods.map MethodDecl.strip })
    (order : List Nat) (h : ∀ decl ∈ m.types, P decl) :
    ∀ decl ∈ (m.strip order).module.types, P decl :=
  forall_types_sweep TypeDecl.stripMethods hmethods order h

end Module

end PublicAssembly
