import PublicAssembly.Proofs.Promotion.Effect

/-!
# Promoting what was promoted

A module that was prepared is prepared already: nothing is left to be made public or to be emptied,
and the guard over its types keeps the fields that the first one kept, as a promotion leaves the
events alone.

## Main statements

* `Publication.prepare_prepare`: what becomes of a module that was prepared before.
-/

namespace PublicAssembly

/-! ### Members -/

/-- A method that was promoted and stripped is left as it is by doing so again. -/
theorem MethodDecl.strippedIf_promote_again (strip : Bool) (method : MethodDecl) :
    ((method.promote.strippedIf strip).promote).strippedIf strip =
      method.promote.strippedIf strip := by
  cases strip with
  | false => rfl
  | true =>
    have hbody (body : MethodBody) : body.stripped.stripped = body.stripped := rfl
    simp [strippedIf, MethodDecl.strip, promote, Function.comp_def, hbody]

@[simp]
theorem MethodDecl.isPublic_strippedIf (strip : Bool) (method : MethodDecl) :
    (method.strippedIf strip).isPublic = method.isPublic := by
  cases strip <;> rfl

/-- A method that was stripped has no code. -/
theorem MethodDecl.hasCode_strippedIf_true (method : MethodDecl) :
    (method.strippedIf true).hasCode = false := by
  rw [strippedIf, if_pos rfl, strip, hasCode]
  cases method.body <;> rfl

namespace FieldDecl

variable {guard : Guard}

@[simp]
theorem name_publicized (field : FieldDecl) : (field.publicized guard).name = field.name := by
  rw [publicized]
  split <;> rfl

/-- A field that a promotion went over is left as it is by the next one. -/
theorem publicized_publicized (field : FieldDecl) :
    (field.publicized guard).publicized guard = field.publicized guard := by
  by_cases h : guard.keeps field.name = true
  · rw [publicized, publicized, if_pos h, if_pos h]
  · rw [publicized, publicized, if_neg h, if_neg (by exact h)]
    rfl

/-- After a promotion, a field that is not kept is public. -/
theorem not_hidden_publicized (field : FieldDecl) :
    (!guard.keeps field.name && !(field.publicized guard).isPublic) = false := by
  cases h : guard.keeps field.name with
  | true => rfl
  | false =>
    rw [publicized, h]
    rfl

/-- A field that is kept is as hidden as it was before the promotion. -/
theorem hidden_publicized (field : FieldDecl) :
    (guard.keeps field.name && !(field.publicized guard).isPublic) =
      (guard.keeps field.name && !field.isPublic) := by
  cases h : guard.keeps field.name with
  | true => rw [publicized, if_pos h]
  | false => rfl

end FieldDecl

/-! ### Types -/

namespace TypeDecl

variable (guard : Guard) (strip : Bool)

/-- The type as it is written: public with its members, and perhaps without code. -/
def prepared (decl : TypeDecl) : TypeDecl :=
  (decl.publicized guard decl.isNested).strippedIf strip

@[simp]
theorem events_prepared (decl : TypeDecl) : (decl.prepared guard strip).events = decl.events := rfl

@[simp]
theorem publicVisibility_prepared (decl : TypeDecl) :
    (decl.prepared guard strip).publicVisibility = decl.publicVisibility := rfl

@[simp]
theorem visibility_prepared (decl : TypeDecl) :
    (decl.prepared guard strip).visibility = decl.publicVisibility := rfl

/-- The methods of a prepared type. -/
theorem methods_prepared (decl : TypeDecl) :
    (decl.prepared guard strip).methods =
      decl.methods.map fun method => method.promote.strippedIf strip := by
  simp [prepared, strippedIf, publicized, Function.comp_def]

/-- The fields of a prepared type. -/
theorem fields_prepared (decl : TypeDecl) :
    (decl.prepared guard strip).fields = decl.fields.map (FieldDecl.publicized guard) := rfl

/-- What becomes of a type depends on what the guard keeps alone. -/
theorem prepared_congr {guard after : Guard} (hkeeps : ∀ name, after.keeps name = guard.keeps name)
    (strip : Bool) : prepared after strip = prepared guard strip := by
  have hfield : FieldDecl.publicized after = FieldDecl.publicized guard := by
    funext field
    rw [FieldDecl.publicized, FieldDecl.publicized, hkeeps]
  funext decl
  rw [prepared, prepared, publicized, publicized, hfield]

/-- A type that was prepared is left as it is by doing so again. -/
theorem prepared_prepared (decl : TypeDecl) :
    (decl.prepared guard strip).prepared guard strip = decl.prepared guard strip := by
  have hmethods : ((decl.prepared guard strip).prepared guard strip).methods =
      (decl.prepared guard strip).methods := by
    simp [methods_prepared, MethodDecl.strippedIf_promote_again]
  have hfields : ((decl.prepared guard strip).prepared guard strip).fields =
      (decl.prepared guard strip).fields := by
    simp [fields_prepared, FieldDecl.publicized_publicized]
  -- apart from its members, a type is only told its place
  calc (decl.prepared guard strip).prepared guard strip
      = { decl.prepared guard strip with
          methods := ((decl.prepared guard strip).prepared guard strip).methods
          fields := ((decl.prepared guard strip).prepared guard strip).fields } := rfl
    _ = decl.prepared guard strip := by rw [hmethods, hfields]

end TypeDecl

/-! ### Modules -/

/-- A promotion of prepared types counts nothing but the fields that are kept, and these are those
that were kept before. -/
theorem Module.counts_promote_prepared {m : Module} {n : Nat} (hm : m.size = n)
    {guard after : Guard} (hkeeps : ∀ name, after.keeps name = guard.keeps name) (strip : Bool) :
    ((m.mapTypes (TypeDecl.prepared guard strip)).promote (List.range n) after).count =
      { (0 : PromotionCounts) with
        keptFields := (m.promote (List.range n) guard).count.keptFields } := by
  rw [counts_promote (by rw [size_mapTypes, hm]), counts_promote hm, mapTypes, Array.toList_map]
  simp only [PromotionCounts.zero_eq, hkeeps]
  congr 1
  · simp
  · simp [TypeDecl.methods_prepared, Function.comp_def]
  · simp [TypeDecl.fields_prepared, Function.comp_def, List.countP_map,
      FieldDecl.not_hidden_publicized]
  · simp [TypeDecl.fields_prepared, Function.comp_def, List.countP_map,
      FieldDecl.hidden_publicized]

namespace Publication

variable (settings : PromotionSettings) {m : Module} {n : Nat}

/-- Preparing a module prepares each type. -/
theorem module_prepare_eq_mapTypes (hm : m.size = n) (horder : m.flatten = List.range n) :
    (prepare settings m).module =
      m.mapTypes (TypeDecl.prepared (guardOf settings m m.flatten) settings.stripBodies) :=
  module_prepare settings hm horder

/-- A module that was prepared comes out of it as it was. Nothing is counted but the fields that are
kept, and these are those that were kept before. -/
theorem prepare_prepare (hm : m.size = n) (horder : m.flatten = List.range n)
    (hagain : (prepare settings m).module.flatten = List.range n) :
    (prepare settings (prepare settings m).module).module = (prepare settings m).module ∧
      (prepare settings (prepare settings m).module).counts =
        { (0 : PromotionCounts) with keptFields := (prepare settings m).counts.keptFields } ∧
      (prepare settings (prepare settings m).module).strippedBodies = 0 := by
  have hmodule := module_prepare_eq_mapTypes settings hm horder
  have hcounts := counts_prepare settings m
  rw [horder] at hmodule hcounts
  generalize (prepare settings m).module = p at *
  subst hmodule
  have hsize := (Module.size_mapTypes (TypeDecl.prepared
    (guardOf settings m (List.range n)) settings.stripBodies) m).trans hm
  -- no edit changes an event, so the two guards keep the same names
  have hkept : keptNames settings (m.mapTypes (TypeDecl.prepared
      (guardOf settings m (List.range n)) settings.stripBodies)) = keptNames settings m := by
    simp [keptNames, Module.eventNames, Module.mapTypes, List.flatMap_map]
  have hkeeps (name : String) :
      (guardOf settings (m.mapTypes (TypeDecl.prepared
        (guardOf settings m (List.range n)) settings.stripBodies)) (List.range n)).keeps name =
        (guardOf settings m (List.range n)).keeps name := by
    have hbefore := keeps_guardOf settings hm horder name
    have hafter := keeps_guardOf settings hsize hagain name
    rw [horder] at hbefore
    rw [hagain, hkept] at hafter
    rw [Bool.eq_iff_iff, hafter, hbefore]
  refine ⟨?_, ?_, ?_⟩
  · rw [module_prepare_eq_mapTypes settings hsize hagain, Module.mapTypes_mapTypes, hagain,
      TypeDecl.prepared_congr hkeeps]
    simp only [TypeDecl.prepared_prepared]
  · rw [counts_prepare, hagain, hcounts]
    exact Module.counts_promote_prepared hm hkeeps settings.stripBodies
  · rw [strippedBodies_prepare settings hsize hagain]
    split
    · next hstrip =>
      simp [Module.mapTypes, hstrip, TypeDecl.methods_prepared,
        MethodDecl.hasCode_strippedIf_true, Function.comp_def]
    · rfl

end Publication

end PublicAssembly
