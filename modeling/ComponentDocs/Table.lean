import ComponentDocs.Text.Basic

/-!
Tables: values under keys, each key once.
-/

namespace ComponentDocs

/-- A table, in the order in which its keys were added. -/
structure Table (κ α : Type) where
  entries : List (κ × α) := []
  deriving DecidableEq, Repr

namespace Table

variable {κ α : Type} [DecidableEq κ]

def find? (table : Table κ α) (key : κ) : Option α :=
  table.entries.lookup key

def contains (table : Table κ α) (key : κ) : Bool :=
  (table.find? key).isSome

def insertEntry (key : κ) (value : α) : List (κ × α) → List (κ × α)
  | [] => [(key, value)]
  | (other, old) :: rest =>
      if other = key then (key, value) :: rest else (other, old) :: insertEntry key value rest

def insert (table : Table κ α) (key : κ) (value : α) : Table κ α :=
  ⟨insertEntry key value table.entries⟩

def insertNew (table : Table κ α) (key : κ) (value : α) : Table κ α :=
  if table.contains key then table else table.insert key value

def size (table : Table κ α) : Nat :=
  table.entries.length

end Table

end ComponentDocs
