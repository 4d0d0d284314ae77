import PublicAssembly.Toml.Basic

/-!
# Building TOML tables

What a statement adds to the tables that the statements before it have made. A key is set once. A
table has one header; a header may come after the headers of tables in it. A key with points extends
only tables that such keys have made.
-/

namespace PublicAssembly.Toml

/-- A table while it is built. -/
structure Table where
  /-- How the table came to be. -/
  origin : Origin
  /-- The values under their keys. -/
  entries : List (String × Value) := []

namespace Table

/-- The table of a whole text before its first statement. -/
def empty : Table :=
  { origin := .header }

/-- The entries with another value under a key. -/
def putEntry (key : String) (value : Value) : List (String × Value) → List (String × Value)
  | [] => [(key, value)]
  | (k, v) :: rest => if k = key then (key, value) :: rest else (k, v) :: putEntry key value rest

/-- The table with another value under a key. -/
def put (table : Table) (key : String) (value : Value) : Table :=
  { table with entries := putEntry key value table.entries }

/-- The table as a value. -/
def toValue (table : Table) : Value :=
  .table table.origin table.entries

/-- A table of this origin can be extended by keys with points. -/
def isImplied : Origin → Bool
  | .implied => true
  | .dotted => true
  | .inline => false
  | .header => false

/-- Change the table that the keys lead to. Tables that are missing come to be with the given origin;
of tables with the same header the last one is meant. -/
def within (origin : Origin) (change : Table → Option Table) :
    List String → Table → Option Table
  | [], table => change table
  | key :: path, table =>
    match table.entries.lookup key with
    | none => do
      let inner ← within origin change path { origin }
      return table.put key inner.toValue
    -- no table that was written in braces is added to, and none with a header by dotted keys
    | some (.table made entries) =>
      if made = .inline ∨ (origin = .dotted ∧ !isImplied made) then none
      else do
        let inner ← within origin change path ⟨made, entries⟩
        return table.put key inner.toValue
    | some (.tables elements) =>
      match elements.getLast? with
      | none => none
      | some last => do
        let inner ← within origin change path ⟨.header, last⟩
        return table.put key (.tables (elements.dropLast ++ [inner.entries]))
    | some _ => none

/-- Set a key that is not set yet. The path holds the keys with points behind them. -/
def assign (path : List String) (key : String) (value : Value) (table : Table) : Option Table :=
  table.within .dotted (fun inner =>
    if decide (inner.origin = .dotted) = path.isEmpty then none
    else
      match inner.entries.lookup key with
      | none => some (inner.put key value)
      | some _ => none) path

/-- Add the table of a header. -/
def open? (path : List String) (key : String) (table : Table) : Option Table :=
  table.within .implied (fun inner =>
    match inner.entries.lookup key with
    | none => some (inner.put key (.table .header []))
    | some (.table .implied entries) => some (inner.put key (.table .header entries))
    | some _ => none) path

/-- Add one more table with the same header. -/
def openNext? (path : List String) (key : String) (table : Table) : Option Table :=
  table.within .implied (fun inner =>
    match inner.entries.lookup key with
    | none => some (inner.put key (.tables [[]]))
    | some (.tables elements) => some (inner.put key (.tables (elements ++ [[]])))
    | some _ => none) path

/-- Set a key of the table that a header has added. -/
def assignUnder (header path : List String) (key : String) (value : Value) (table : Table) :
    Option Table :=
  table.within .implied (assign path key value) header

end Table

end PublicAssembly.Toml
