import PublicAssembly.Module.Sweep
import PublicAssembly.Promotion.Guard

/-!
# Promotion and stripping

Promotion makes types and members public. It runs in four sweeps, over types, methods, fields and
accessors, and counts what each of them changed; something that was public before is not counted. A
field that the guard keeps stays as it is.

Stripping empties the code of methods and leaves everything else, so that the module can still be
linked against.
-/

namespace PublicAssembly

/-- The number of things that a promotion changed, by kind. -/
structure PromotionCounts where
  /-- The types made public. -/
  types : Nat
  /-- The methods made public. -/
  methods : Nat
  /-- The fields made public. -/
  fields : Nat
  /-- The methods made public because they read a property. -/
  getters : Nat
  /-- The methods made public because they write a property. -/
  setters : Nat
  /-- The fields that are not public and were kept so. -/
  keptFields : Nat
  deriving DecidableEq, Repr

namespace PromotionCounts

instance : Zero PromotionCounts := ⟨⟨0, 0, 0, 0, 0, 0⟩⟩

/-- The counts of one promotion and another, kind by kind. -/
def add (a b : PromotionCounts) : PromotionCounts :=
  ⟨a.types + b.types, a.methods + b.methods, a.fields + b.fields, a.getters + b.getters,
    a.setters + b.setters, a.keptFields + b.keptFields⟩

instance : Add PromotionCounts := ⟨add⟩

/-- The number of things made public. -/
def total (counts : PromotionCounts) : Nat :=
  counts.types + counts.methods + counts.fields + counts.getters + counts.setters

/-- What the log says about a promotion. -/
def lines (counts : PromotionCounts) : List LogLine :=
  let changed (n : Nat) (kind : String) : LogLine :=
    .info s!"Changed {n} non-public {kind} to public."
  let kept := if 0 < counts.keptFields then
      [.info s!"Kept {counts.keptFields} event backing fields as they were."]
    else []
  [changed counts.types "types", changed counts.methods "methods", changed counts.fields "fields",
    changed counts.getters "getters", changed counts.setters "setters"] ++ kept

end PromotionCounts

namespace MethodDecl

/-- The method with everyone allowed to use it. -/
def promote (method : MethodDecl) : MethodDecl :=
  { method with access := .publicMember }

end MethodDecl

namespace FieldDecl

/-- The field with everyone allowed to use it. -/
def promote (field : FieldDecl) : FieldDecl :=
  { field with access := .publicMember }

end FieldDecl

namespace TypeDecl

/-- The visibility of a public type in its place. -/
def publicVisibility (decl : TypeDecl) : Visibility :=
  if decl.isNested then .nestedPublic else .publicType

/-- Make the type public. -/
def promoteType (decl : TypeDecl) : Edit PromotionCounts :=
  let target := decl.publicVisibility
  if decl.visibility = target then ⟨decl, 0, []⟩
  else
    { decl := { decl with visibility := target }
      count := { (0 : PromotionCounts) with types := 1 }
      lines := [.debug s!"Type {decl.fullName} {decl.visibility.label} -> {target.label}"] }

/-- Make the methods public. -/
def promoteMethods (decl : TypeDecl) : Edit PromotionCounts :=
  { decl := { decl with methods := decl.methods.map MethodDecl.promote }
    count := { (0 : PromotionCounts) with
      methods := decl.methods.countP fun method => !method.isPublic } }

/-- Make the fields public that the guard does not keep. -/
def promoteFields (guard : Guard) (decl : TypeDecl) : Edit PromotionCounts :=
  let kept := decl.fields.filter fun field => guard.keeps field.name && !field.isPublic
  { decl := { decl with
      fields := decl.fields.map fun field =>
        if guard.keeps field.name then field else field.promote }
    count := { (0 : PromotionCounts) with
      fields := decl.fields.countP fun field => !guard.keeps field.name && !field.isPublic
      keptFields := kept.length }
    lines := kept.map fun field => .debug s!"Skipping event backing field {field.name}" }

/-- The method at a place is there and not public. -/
def hasHiddenMethod (decl : TypeDecl) : Option Nat → Bool
  | none => false
  | some place =>
    match decl.methods[place]? with
    | some method => !method.isPublic
    | none => false

/-- Make the method at a place public. -/
def promoteMethodAt (decl : TypeDecl) : Option Nat → TypeDecl
  | none => decl
  | some place => { decl with methods := decl.methods.modify place MethodDecl.promote }

/-- Make the accessors of some properties public, property after property. -/
def promoteAccessorsOf : List PropertyDecl → TypeDecl → Edit PromotionCounts
  | [], decl => ⟨decl, 0, []⟩
  | property :: rest, decl =>
    let getters := if decl.hasHiddenMethod property.getter then 1 else 0
    let decl := decl.promoteMethodAt property.getter
    let setters := if decl.hasHiddenMethod property.setter then 1 else 0
    let decl := decl.promoteMethodAt property.setter
    let others := promoteAccessorsOf rest decl
    { others with
      count := { (0 : PromotionCounts) with getters := getters, setters := setters } +
        others.count }

/-- Make the accessors of all properties public. -/
def promoteAccessors (decl : TypeDecl) : Edit PromotionCounts :=
  promoteAccessorsOf decl.properties decl

end TypeDecl

namespace Module

/-- Make the types of the given ids and their members public, apart from the fields that the guard
keeps. -/
def promote (m : Module) (order : List Nat) (guard : Guard) : Sweep PromotionCounts :=
  let types := m.sweep TypeDecl.promoteType order
  let methods := types.module.sweep TypeDecl.promoteMethods order
  let fields := methods.module.sweep (TypeDecl.promoteFields guard) order
  let accessors := fields.module.sweep TypeDecl.promoteAccessors order
  { module := accessors.module
    count := types.count + methods.count + fields.count + accessors.count
    lines := types.lines ++ methods.lines ++ fields.lines ++ accessors.lines }

end Module

/-! ### Stripping -/

/-- The body without its code. -/
def MethodBody.stripped (body : MethodBody) : MethodBody :=
  { body with code := #[] }

namespace MethodDecl

/-- The method has code. -/
def hasCode (method : MethodDecl) : Bool :=
  match method.body with
  | some body => !body.code.isEmpty
  | none => false

/-- The method without its code. -/
def strip (method : MethodDecl) : MethodDecl :=
  { method with body := method.body.map MethodBody.stripped }

end MethodDecl

/-- Empty the code of the methods of a type, and count the methods that had any. -/
def TypeDecl.stripMethods (decl : TypeDecl) : Edit Nat :=
  let emptied := decl.methods.countP MethodDecl.hasCode
  { decl := { decl with methods := decl.methods.map MethodDecl.strip }
    count := emptied
    lines := if 0 < emptied then
        [.debug s!"Stripped {emptied} method bodies of {decl.fullName}"]
      else [] }

/-- Empty the code of the methods of the types of the given ids. -/
def Module.strip (m : Module) (order : List Nat) : Sweep Nat :=
  m.sweep TypeDecl.stripMethods order

end PublicAssembly
