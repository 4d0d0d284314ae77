import PublicAssembly.Proofs.Promotion.Again
import PublicAssembly.Proofs.Promotion.Listed

/-!
# Promotion and stripping over any list of ids

A promotion goes over the same list four times, and a stripping once. All the same, each is one edit
of the listed types, and what it counts is read off the module before it: nothing that one sweep of
a promotion edits is looked at by another one, but for the accessors, and these are public by then.

## Main statements

* `Module.promote_eq`, `Module.strip_eq`: a promotion and a stripping as one edit and its counts;
* `Module.changed_promote`: what a promotion changes is what was hidden;
* `Module.promote_listed`: what a promotion does, said of the module before and after it;
* `Module.promote_strip_append`: promotion and stripping do not disturb each other, and a list can
  be gone over in parts. -/

namespace PublicAssembly

namespace TypeDecl

/-- The type with the visibility of a public one in its place. -/
def withPublicVisibility (decl : TypeDecl) : TypeDecl :=
  { decl with visibility := decl.publicVisibility }

/-- The type with public methods. -/
def withPublicMethods (decl : TypeDecl) : TypeDecl :=
  { decl with methods := decl.methods.map MethodDecl.promote }

/-- The type with the fields public that the guard does not keep. -/
def withPublicFields (guard : Guard) (decl : TypeDecl) : TypeDecl :=
  { decl with fields := decl.fields.map (FieldDecl.publicized guard) }

/-- One if the type is not as visible as a promotion makes it, zero otherwise. -/
def hiddenTypes (decl : TypeDecl) : Nat :=
  if decl.visibility = decl.publicVisibility then 0 else 1

/-- The number of methods that are not public. -/
def hiddenMethods (decl : TypeDecl) : Nat :=
  decl.methods.countP fun method => !method.isPublic

/-- The number of fields that are not public and that the guard does not keep. -/
def hiddenFields (guard : Guard) (decl : TypeDecl) : Nat :=
  decl.fields.countP fun field => !guard.keeps field.name && !field.isPublic

/-- The number of fields that are not public and that the guard keeps so. -/
def keptFields (guard : Guard) (decl : TypeDecl) : Nat :=
  decl.fields.countP fun field => guard.keeps field.name && !field.isPublic

/-- The number of methods with code. -/
def codedMethods (decl : TypeDecl) : Nat :=
  decl.methods.countP MethodDecl.hasCode

section Counts

variable (guard : Guard) (strip : Bool) (decl : TypeDecl)

/-- Nothing of a type that was promoted is hidden but the fields that are kept, and these are those
that were kept before. -/
theorem hidden_publicized :
    (decl.publicized guard decl.isNested).hiddenTypes = 0 ∧
      (decl.publicized guard decl.isNested).hiddenMethods = 0 ∧
      hiddenFields guard (decl.publicized guard decl.isNested) = 0 ∧
      keptFields guard (decl.publicized guard decl.isNested) = keptFields guard decl := by
  refine ⟨?_, ?_, ?_, ?_⟩
  · exact if_pos rfl
  · simp [hiddenMethods, publicized]
  · simp [hiddenFields, publicized, List.countP_map, Function.comp_def,
      FieldDecl.not_hidden_publicized]
  · simp [keptFields, publicized, List.countP_map, Function.comp_def,
      FieldDecl.hidden_publicized]

/-- Promotion leaves the code of methods. -/
theorem codedMethods_publicized :
    (decl.publicized guard decl.isNested).codedMethods = decl.codedMethods := by
  rw [codedMethods, codedMethods, publicized, List.countP_map]
  rfl

/-- Stripping leaves what is hidden. -/
theorem hidden_strippedIf :
    (decl.strippedIf strip).hiddenTypes = decl.hiddenTypes ∧
      (decl.strippedIf strip).hiddenMethods = decl.hiddenMethods ∧
      hiddenFields guard (decl.strippedIf strip) = hiddenFields guard decl ∧
      keptFields guard (decl.strippedIf strip) = keptFields guard decl := by
  refine ⟨rfl, ?_, rfl, rfl⟩
  rw [hiddenMethods, hiddenMethods, strippedIf, List.countP_map]
  congr 1
  funext method
  rw [Function.comp_apply, MethodDecl.isPublic_strippedIf]

/-- A type that was stripped has no code. -/
theorem codedMethods_strippedIf : (decl.strippedIf true).codedMethods = 0 := by
  simp [codedMethods, strippedIf, List.countP_map, Function.comp_def,
    MethodDecl.hasCode_strippedIf_true]

/-- Promoting a type again leaves it. -/
theorem publicized_publicized :
    (decl.publicized guard decl.isNested).publicized guard decl.isNested =
      decl.publicized guard decl.isNested := by
  have hagain := decl.prepared_prepared guard false
  simp only [prepared, strippedIf_false] at hagain
  exact hagain

/-- Stripping a type again leaves it. -/
theorem strippedIf_strippedIf : (decl.strippedIf true).strippedIf true = decl.strippedIf true := by
  simp [strippedIf, MethodDecl.strippedIf, Function.comp_def, MethodDecl.strip_strip]

/-- Promoting and stripping a type can be done in any order. -/
theorem strippedIf_publicized (nested : Bool) :
    (decl.publicized guard nested).strippedIf strip =
      (decl.strippedIf strip).publicized guard nested := by
  cases strip with
  | false => simp
  | true =>
    simp [strippedIf, publicized, Function.comp_def, MethodDecl.strippedIf, MethodDecl.strip,
      MethodDecl.promote]

end Counts

end TypeDecl

namespace Module

/-! ### The four sweeps of a promotion -/

variable (m : Module) (order : List Nat) (guard : Guard)

/-- The first sweep sets the visibility of the listed types. -/
theorem sweep_promoteType :
    (m.sweep TypeDecl.promoteType order).module =
        m.mapListed order TypeDecl.withPublicVisibility ∧
      (m.sweep TypeDecl.promoteType order).count =
        ⟨m.sumListed order TypeDecl.hiddenTypes, 0, 0, 0, 0, 0⟩ := by
  have hdecl (decl : TypeDecl) : decl.promoteType.decl = decl.withPublicVisibility :=
    decl.decl_promoteType
  constructor
  · rw [module_sweep fun decl => ?_]
    · simp only [hdecl]
    · rw [hdecl, hdecl]
      rfl
  · -- a type counts once, since it is public when its id comes up again
    refine count_sweep TypeDecl.hiddenTypes (fun _ => 0)
      (fun removed _ => PromotionCounts.mk removed 0 0 0 0 0) rfl (fun _ _ _ _ => rfl)
      (fun decl => ?_) (fun decl => ?_) (fun _ => rfl) order m
    · by_cases h : decl.visibility = decl.publicVisibility
      · simp [TypeDecl.promoteType, TypeDecl.hiddenTypes, h, PromotionCounts.zero_eq]
      · simp [TypeDecl.promoteType, TypeDecl.hiddenTypes, h, PromotionCounts.zero_eq]
    · rw [hdecl]
      exact if_pos rfl

/-- The second sweep makes the methods of the listed types public. -/
theorem sweep_promoteMethods :
    (m.sweep TypeDecl.promoteMethods order).module =
        m.mapListed order TypeDecl.withPublicMethods ∧
      (m.sweep TypeDecl.promoteMethods order).count =
        ⟨0, m.sumListed order TypeDecl.hiddenMethods, 0, 0, 0, 0⟩ := by
  constructor
  · refine module_sweep (fun decl => ?_) order m
    simp [TypeDecl.promoteMethods, Function.comp_def, MethodDecl.promote]
  · refine count_sweep TypeDecl.hiddenMethods (fun _ => 0)
      (fun removed _ => PromotionCounts.mk 0 removed 0 0 0 0) rfl (fun _ _ _ _ => rfl)
      (fun decl => rfl) (fun decl => ?_) (fun _ => rfl) order m
    simp [TypeDecl.promoteMethods, TypeDecl.hiddenMethods]

/-- The third sweep makes the fields of the listed types public that the guard does not keep. -/
theorem sweep_promoteFields :
    (m.sweep (TypeDecl.promoteFields guard) order).module =
        m.mapListed order (TypeDecl.withPublicFields guard) ∧
      (m.sweep (TypeDecl.promoteFields guard) order).count =
        ⟨0, 0, m.sumListed order (TypeDecl.hiddenFields guard), 0, 0,
          m.sumOccurring order (TypeDecl.keptFields guard)⟩ := by
  have hfields (decl : TypeDecl) : (TypeDecl.promoteFields guard decl).decl =
      decl.withPublicFields guard := rfl
  constructor
  · refine module_sweep (fun decl => ?_) order m
    simp [hfields, TypeDecl.withPublicFields, Function.comp_def, FieldDecl.publicized_publicized]
  · -- a field counts once when it is made public, and each time when it is kept
    refine count_sweep (TypeDecl.hiddenFields guard) (TypeDecl.keptFields guard)
      (fun removed left => PromotionCounts.mk 0 0 removed 0 0 left) rfl (fun _ _ _ _ => rfl)
      (fun decl => ?_) (fun decl => ?_) (fun decl => ?_) order m
    · simp [TypeDecl.promoteFields, TypeDecl.hiddenFields, TypeDecl.keptFields,
        PromotionCounts.zero_eq, List.countP_eq_length_filter]
    · simp [hfields, TypeDecl.withPublicFields, TypeDecl.hiddenFields, List.countP_map,
        Function.comp_def, FieldDecl.not_hidden_publicized]
    · simp [hfields, TypeDecl.withPublicFields, TypeDecl.keptFields, List.countP_map,
        Function.comp_def, FieldDecl.hidden_publicized]

variable {m order} in
/-- The last sweep finds nothing to do if the methods of the listed types are public. -/
theorem sweep_promoteAccessors
    (h : ∀ id ∈ order, ∀ decl, m.get? id = some decl →
      ∀ method ∈ decl.methods, method.isPublic = true) :
    (m.sweep TypeDecl.promoteAccessors order).module = m ∧
      (m.sweep TypeDecl.promoteAccessors order).count = 0 :=
  sweep_of_idle rfl fun id hid decl hdecl =>
    TypeDecl.promoteAccessors_of_isPublic (h id hid decl hdecl)

/-! ### What a promotion and a stripping do and count -/

/-- A promotion is an edit of the listed types, and it counts what is hidden of them in the module
as it was. -/
theorem promote_eq :
    (m.promote order guard).module =
        m.mapListed order (fun decl => decl.publicized guard decl.isNested) ∧
      (m.promote order guard).count =
        { types := m.sumListed order TypeDecl.hiddenTypes
          methods := m.sumListed order TypeDecl.hiddenMethods
          fields := m.sumListed order (TypeDecl.hiddenFields guard)
          getters := 0
          setters := 0
          keptFields := m.sumOccurring order (TypeDecl.keptFields guard) } := by
  set visible := m.mapListed order TypeDecl.withPublicVisibility with hvisible
  set called := visible.mapListed order TypeDecl.withPublicMethods with hcalled
  set opened := called.mapListed order (TypeDecl.withPublicFields guard) with hopen
  have hwhole : opened = m.mapListed order fun decl => decl.publicized guard decl.isNested := by
    rw [hopen, hcalled, hvisible, mapListed_mapListed, mapListed_mapListed]
    rfl
  -- the second sweep made all methods public, and the third left them so
  have hpublic : ∀ id ∈ order, ∀ decl, opened.get? id = some decl →
      ∀ method ∈ decl.methods, method.isPublic = true := by
    intro id hid decl hdecl method hmethod
    rw [hwhole, get?_mapListed, Option.map_eq_some_iff] at hdecl
    obtain ⟨before, -, rfl⟩ := hdecl
    rw [if_pos hid, TypeDecl.publicized, List.mem_map] at hmethod
    obtain ⟨method, -, rfl⟩ := hmethod
    exact method.isPublic_promote
  obtain ⟨htypes, htypesCount⟩ := m.sweep_promoteType order
  obtain ⟨hmethods, hmethodsCount⟩ := visible.sweep_promoteMethods order
  obtain ⟨hfields, hfieldsCount⟩ := called.sweep_promoteFields order guard
  obtain ⟨haccessors, haccessorsCount⟩ := sweep_promoteAccessors hpublic
  -- no sweep edits what a later one counts
  have hmethodsBefore : visible.sumListed order TypeDecl.hiddenMethods =
      m.sumListed order TypeDecl.hiddenMethods :=
    sumListed_mapListed (f := TypeDecl.withPublicVisibility) (fun _ => rfl) order order m
  have hfieldsBefore : called.sumListed order (TypeDecl.hiddenFields guard) =
      m.sumListed order (TypeDecl.hiddenFields guard) := by
    rw [hcalled, hvisible, sumListed_mapListed (f := TypeDecl.withPublicMethods) fun _ => rfl,
      sumListed_mapListed (f := TypeDecl.withPublicVisibility) fun _ => rfl]
  have hkeptBefore : called.sumOccurring order (TypeDecl.keptFields guard) =
      m.sumOccurring order (TypeDecl.keptFields guard) := by
    rw [hcalled, hvisible, sumOccurring_mapListed (f := TypeDecl.withPublicMethods) fun _ => rfl,
      sumOccurring_mapListed (f := TypeDecl.withPublicVisibility) fun _ => rfl]
  rw [promote]
  dsimp only
  rw [htypes, ← hvisible, hmethods, ← hcalled, hfields, ← hopen]
  refine ⟨haccessors.trans hwhole, ?_⟩
  rw [htypesCount, hmethodsCount, hfieldsCount, haccessorsCount, hmethodsBefore, hfieldsBefore,
    hkeptBefore, PromotionCounts.zero_eq]
  simp only [PromotionCounts.mk_add_mk, Nat.zero_add, Nat.add_zero]

/-- A stripping is an edit of the listed types, and counts their methods with code. -/
theorem strip_eq :
    (m.strip order).module = m.mapListed order (TypeDecl.strippedIf true) ∧
      (m.strip order).count = m.sumListed order TypeDecl.codedMethods := by
  have hdecl (decl : TypeDecl) : decl.stripMethods.decl = decl.strippedIf true := rfl
  constructor
  · refine module_sweep (fun decl => ?_) order m
    simp [TypeDecl.stripMethods, Function.comp_def, MethodDecl.strip_strip]
  · refine count_sweep TypeDecl.codedMethods (fun _ => 0) (fun removed _ => removed) rfl
      (fun _ _ _ _ => rfl) (fun _ => rfl) (fun decl => ?_) (fun _ => rfl) order m
    rw [hdecl, TypeDecl.codedMethods_strippedIf]

/-! ### Before and after -/

/-- The number of places at which two lists have items that differ in what `f` says of them. -/
def differing {α β : Type} [DecidableEq β] (f : α → β) (before after : List α) : Nat :=
  (before.zip after).countP fun pair => decide (f pair.1 ≠ f pair.2)

/-- An edit of all items of a list makes those differ that it changes. -/
theorem differing_map {α β : Type} [DecidableEq β] (f : α → β) (edit : α → α) (items : List α) :
    differing f items (items.map edit) =
      items.countP fun item => decide (f item ≠ f (edit item)) := by
  rw [differing]
  induction items with
  | nil => rfl
  | cons item rest ih =>
    rw [List.map_cons, List.zip_cons_cons, List.countP_cons, List.countP_cons, ih]

/-- Nothing differs from itself. -/
theorem differing_self {α β : Type} [DecidableEq β] (f : α → β) (items : List α) :
    differing f items items = 0 := by
  have hsame := differing_map f id items
  rw [List.map_id] at hsame
  rw [hsame]
  simp

/-- The number of types whose visibility differs. -/
def changedTypes (before after : Module) : Nat :=
  sumChanges (fun d d' => if d.visibility = d'.visibility then 0 else 1) before after

/-- The number of methods whose access differs. -/
def changedMethods (before after : Module) : Nat :=
  sumChanges (fun d d' => differing MethodDecl.access d.methods d'.methods) before after

/-- The number of fields whose access differs. -/
def changedFields (before after : Module) : Nat :=
  sumChanges (fun d d' => differing FieldDecl.access d.fields d'.fields) before after

/-- A promotion changes what is hidden of the listed types. -/
theorem changed_promote :
    changedTypes m (m.promote order guard).module = m.sumListed order TypeDecl.hiddenTypes ∧
      changedMethods m (m.promote order guard).module = m.sumListed order TypeDecl.hiddenMethods ∧
      changedFields m (m.promote order guard).module =
        m.sumListed order (TypeDecl.hiddenFields guard) := by
  -- a member differs after the promotion exactly if it was hidden
  have hmethod (method : MethodDecl) :
      decide (method.access ≠ method.promote.access) = !method.isPublic := by
    rw [MethodDecl.promote, MethodDecl.isPublic]
    exact decide_not
  have hfield (field : FieldDecl) : decide (field.access ≠ (field.publicized guard).access) =
      (!guard.keeps field.name && !field.isPublic) := by
    rw [FieldDecl.publicized]
    cases guard.keeps field.name with
    | true => simp
    | false => exact decide_not
  rw [(m.promote_eq order guard).1]
  refine ⟨?_, ?_, ?_⟩
  · exact sumChanges_mapListed (fun decl => if_pos rfl) order _ m
  · rw [changedMethods, sumChanges_mapListed fun decl => differing_self _ _]
    congr 1
    funext decl
    rw [TypeDecl.publicized, differing_map, TypeDecl.hiddenMethods]
    simp only [hmethod]
  · rw [changedFields, sumChanges_mapListed fun decl => differing_self _ _]
    congr 1
    funext decl
    rw [TypeDecl.publicized, differing_map, TypeDecl.hiddenFields]
    simp only [hfield]

/-- The exact effect of a promotion over any list of ids, in any order, with repeated and unknown
ones. The listed types become public in their places, with all their methods and with the fields
that the guard does not keep, and nothing else of the module is touched. The counts are the numbers
of types, methods and fields that differ before and after; no accessor is ever counted, and a kept
field that is not public is counted each time the id of its type comes up. So a promotion over any
of these ids again, in whatever order, leaves the module and makes nothing public. -/
theorem promote_listed :
    (∀ id, (m.promote order guard).module.get? id = (m.get? id).map fun decl =>
      if id ∈ order then
        { decl with
          visibility := if decl.parent.isSome then .nestedPublic else .publicType
          methods := decl.methods.map fun method => { method with access := .publicMember }
          fields := decl.fields.map fun field =>
            if guard.keeps field.name then field else { field with access := .publicMember } }
      else decl) ∧
    ((m.promote order guard).module.name = m.name ∧
      (m.promote order guard).module.roots = m.roots ∧
      (m.promote order guard).module.image = m.image) ∧
    (m.promote order guard).count =
      { types := changedTypes m (m.promote order guard).module
        methods := changedMethods m (m.promote order guard).module
        fields := changedFields m (m.promote order guard).module
        getters := 0
        setters := 0
        keptFields := (order.map fun id => (m.get? id).elim 0 fun decl =>
          decl.fields.countP fun field => guard.keeps field.name && !field.isPublic).sum } ∧
    ∀ again ⊆ order,
      ((m.promote order guard).module.promote again guard).module =
        (m.promote order guard).module ∧
      ((m.promote order guard).module.promote again guard).count.total = 0 := by
  obtain ⟨hmodule, hcount⟩ := m.promote_eq order guard
  obtain ⟨htypes, hmethods, hfields⟩ := m.changed_promote order guard
  have hhidden := TypeDecl.hidden_publicized guard
  refine ⟨fun id => ?_, ?_, ?_, fun again hagain => ⟨?_, ?_⟩⟩
  · rw [hmodule, get?_mapListed]
    rfl
  · rw [hmodule]
    exact ⟨rfl, rfl, rfl⟩
  · rw [htypes, hmethods, hfields, hcount]
    rfl
  · rw [(promote_eq _ again guard).1, hmodule]
    refine mapListed_eq_self fun id hid decl hdecl => ?_
    rw [get?_mapListed, Option.map_eq_some_iff] at hdecl
    obtain ⟨before, -, rfl⟩ := hdecl
    rw [if_pos (hagain hid)]
    exact before.publicized_publicized guard
  · rw [(promote_eq _ again guard).2, hmodule, PromotionCounts.total]
    dsimp only
    -- nothing of the listed types is hidden any more
    rw [sumListed_of_subset (fun decl => (hhidden decl).1) hagain,
      sumListed_of_subset (fun decl => (hhidden decl).2.1) hagain,
      sumListed_of_subset (fun decl => (hhidden decl).2.2.1) hagain]

/-- Two types that are not public, of which the second is nested in the first. The first one has an
event and a field of its name. -/
def sampleTypes : Module where
  name := "Sample"
  types := #[
    { name := "Outer"
      visibility := .notPublic
      methods := [{ name := "run", access := .privateMember }]
      fields := [{ name := "Changed", access := .privateMember },
        { name := "count", access := .assembly }]
      events := ["Changed"]
      nested := #[1] },
    { name := "Inner"
      visibility := .nestedPrivate
      parent := some 0 }]
  roots := #[0]

/-- The first type is listed twice, so that its field is kept twice. Over the same types in another
order, nothing is left to do. -/
theorem promote_listed_sampleTypes :
    (sampleTypes.promote [1, 0, 1, 7, 0] ⟨["Changed"]⟩).count = ⟨2, 1, 1, 0, 0, 2⟩ ∧
      [7, 1, 0] ⊆ [1, 0, 1, 7, 0] ∧
      ((sampleTypes.promote [1, 0, 1, 7, 0] ⟨["Changed"]⟩).module.promote [7, 1, 0]
        ⟨["Changed"]⟩).count.total = 0 := by
  obtain ⟨-, -, hcount, hagain⟩ := promote_listed sampleTypes [1, 0, 1, 7, 0] ⟨["Changed"]⟩
  have hlisted : [7, 1, 0] ⊆ [1, 0, 1, 7, 0] := by decide
  refine ⟨?_, hlisted, (hagain _ hlisted).2⟩
  rw [hcount]
  decide +kernel

/-- Promotion and stripping do not disturb each other, over any two lists of ids: done in either
order they give the same module and the same counts. And each can be done in parts: over two lists
one after the other, which may have ids in common, they do what they do over both at once, and count
in sum what they count over both. -/
theorem promote_strip_append (o₁ o₂ : List Nat) :
    (((m.promote o₁ guard).module.strip o₂).module = ((m.strip o₂).module.promote o₁ guard).module ∧
      (m.promote o₁ guard).count = ((m.strip o₂).module.promote o₁ guard).count ∧
      ((m.promote o₁ guard).module.strip o₂).count = (m.strip o₂).count) ∧
    ((m.promote (o₁ ++ o₂) guard).module = ((m.promote o₁ guard).module.promote o₂ guard).module ∧
      (m.promote (o₁ ++ o₂) guard).count =
        (m.promote o₁ guard).count + ((m.promote o₁ guard).module.promote o₂ guard).count) ∧
    (m.strip (o₁ ++ o₂)).module = ((m.strip o₁).module.strip o₂).module ∧
      (m.strip (o₁ ++ o₂)).count = (m.strip o₁).count + ((m.strip o₁).module.strip o₂).count := by
  have hhidden := TypeDecl.hidden_publicized guard
  have hstripped := TypeDecl.hidden_strippedIf guard true
  refine ⟨⟨?_, ?_, ?_⟩, ⟨?_, ?_⟩, ?_, ?_⟩
  · rw [(strip_eq _ o₂).1, (promote_eq _ o₁ guard).1, (promote_eq _ o₁ guard).1, (strip_eq _ o₂).1]
    exact mapListed_comm (fun decl => decl.strippedIf_publicized guard true decl.isNested) o₁ o₂ m
  · -- what a promotion counts is not what a stripping edits
    rw [(promote_eq _ o₁ guard).2, (promote_eq _ o₁ guard).2, (strip_eq _ o₂).1,
      sumListed_mapListed fun decl => (hstripped decl).1,
      sumListed_mapListed fun decl => (hstripped decl).2.1,
      sumListed_mapListed fun decl => (hstripped decl).2.2.1,
      sumOccurring_mapListed fun decl => (hstripped decl).2.2.2]
  · rw [(strip_eq _ o₂).2, (strip_eq _ o₂).2, (promote_eq _ o₁ guard).1,
      sumListed_mapListed fun decl => decl.codedMethods_publicized guard]
  · rw [(promote_eq _ _ guard).1, (promote_eq _ _ guard).1, (promote_eq _ _ guard).1]
    exact mapListed_append (fun decl => decl.publicized_publicized guard) o₁ o₂ m
  · -- what the first promotion makes public is not counted by the second
    rw [(promote_eq _ _ guard).2, (promote_eq _ _ guard).2, (promote_eq _ _ guard).2,
      (promote_eq _ _ guard).1, PromotionCounts.mk_add_mk,
      sumListed_append (fun decl => (hhidden decl).1),
      sumListed_append (fun decl => (hhidden decl).2.1),
      sumListed_append (fun decl => (hhidden decl).2.2.1),
      sumOccurring_mapListed fun decl => (hhidden decl).2.2.2, sumOccurring_append]
  · rw [(strip_eq _ _).1, (strip_eq _ _).1, (strip_eq _ _).1]
    exact mapListed_append (fun decl => decl.strippedIf_strippedIf) o₁ o₂ m
  · rw [(strip_eq _ _).2, (strip_eq _ _).2, (strip_eq _ _).2, (strip_eq _ _).1]
    exact sumListed_append TypeDecl.codedMethods_strippedIf o₁ o₂ m

end Module

end PublicAssembly
