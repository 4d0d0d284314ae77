import PublicAssembly.Module.Basic

/-!
# Fields that back an event

Compilers keep the delegate of an event in a private field of the same name, and making that field
public would clash with the event. A guard holds the event names of a module; a field of such a name
keeps its access, in whatever type it is declared.
-/

namespace PublicAssembly

/-- The names of the fields that keep their access. -/
structure Guard where
  /-- The names, each once. -/
  names : List String
  deriving DecidableEq, Repr

namespace Guard

/-- The guard that keeps no field. -/
def none : Guard :=
  ⟨[]⟩

/-- The event names of the types of the given ids; unknown ids are passed over. -/
def eventNames (m : Module) (order : List Nat) : List String :=
  order.flatMap fun id =>
    match m.get? id with
    | some decl => decl.events
    | Option.none => []

/-- The guard that keeps the fields named like an event of the types of the given ids. -/
def ofEvents (m : Module) (order : List Nat) : Guard :=
  ⟨(eventNames m order).eraseDups⟩

/-- A field of the given name keeps its access. -/
def keeps (guard : Guard) (name : String) : Bool :=
  guard.names.contains name

/-- The number of names. -/
def size (guard : Guard) : Nat :=
  guard.names.length

@[simp]
theorem keeps_none (name : String) : none.keeps name = false := rfl

/-- A guard keeps exactly the names of the events. -/
theorem keeps_ofEvents (m : Module) (order : List Nat) (name : String) :
    (ofEvents m order).keeps name = true ↔ name ∈ eventNames m order := by
  simp [keeps, ofEvents]

end Guard

end PublicAssembly
