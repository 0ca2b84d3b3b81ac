import ComponentDocs.Text.Basic

/-!
Dictionaries: entries in the order of their names, each name once.
-/

namespace ComponentDocs.Dictionary

variable {α : Type}

def insert (name : Text) (value : α) : List (Text × α) → List (Text × α)
  | [] => [(name, value)]
  | (key, old) :: rest =>
      if name == key then (name, value) :: rest
      else if name < key then (name, value) :: (key, old) :: rest
      else (key, old) :: insert name value rest

/-- Entries put in one by one: of several with one name the last one counts. -/
def ofList (entries : List (Text × α)) : List (Text × α) :=
  entries.foldl (fun sorted (name, value) => insert name value sorted) []

end ComponentDocs.Dictionary
