import ComponentDocs.Types.Lookup

/-!
Looking up a type together with the types that its definition refers to.
-/

namespace ComponentDocs.Types

structure Reference where
  name : Text
  file : Text
  deriving DecidableEq, Repr

structure Search where
  sources : Sources
  visited : List Reference := []
  found : List ResolvedType := []
  failures : List Failure := []
  deriving DecidableEq, Repr

def ResolvedType.isSame (type other : ResolvedType) : Bool :=
  type.sourceFile == other.sourceFile && type.name == other.name

def ResolvedType.references (type : ResolvedType) (file : Text) : List Reference :=
  type.dependencies.map fun name => ⟨name, type.sourceFile.getD file⟩

namespace Search

def add (search : Search) (type : ResolvedType) : Search :=
  if search.found.any type.isSame then search else { search with found := search.found ++ [type] }

/-- Look up one reference.  The file from which the search started has the given
imports; every other file has those it was read with. -/
def visit (start : Text) (imports : List Import) (search : Search) (reference : Reference) :
    Search × List Reference :=
  let visible :=
    if reference.file == start then imports
    else search.sources.catalog.importsOf reference.file
  let lookup := search.sources.lookup reference.name reference.file visible
  let next : Search :=
    { search with
      sources := lookup.sources
      visited := reference :: search.visited
      failures := search.failures ++ lookup.failures }
  match lookup.found with
  | some type => (next.add type, type.references reference.file)
  | none => (next, [])

/-- Look up references one after the other, and behind them those that are met on the
way.  Each is looked up once. -/
def run (start : Text) (imports : List Import) : Nat → List Reference → Search → Search
  | 0, _, search => search
  | _ + 1, [], search => search
  | fuel + 1, reference :: queue, search =>
      if search.visited.contains reference then run start imports fuel queue search
      else
        let (next, met) := search.visit start imports reference
        run start imports fuel (queue ++ met) next

end Search

namespace Sources

def partBound (text : Text) : Nat :=
  (text.length + 1) * (text.length + 1)

def contentBound : Content → Nat
  | .text text => partBound text
  | .binary => 1

def total {α : Type} (bound : α → Nat) : List α → Nat
  | [] => 0
  | item :: rest => bound item + total bound rest

def nameBound (sources : Sources) : Nat :=
  1 + total (fun (_, content) => contentBound content) sources.workspace.files +
    total (fun (_, known) => partBound known.declaration.text)
      sources.catalog.declarations.entries +
    total (fun (_, type) => type.dependencies.length) sources.catalog.resolved.entries

/-- More files than names can be looked up in.  A file may go by two paths. -/
def fileBound (sources : Sources) : Nat :=
  1 + 2 * sources.workspace.files.length + sources.catalog.declarations.size +
    sources.catalog.resolved.size

def searchBound (sources : Sources) : Nat :=
  2 + sources.fileBound * sources.nameBound * sources.nameBound

def collect (sources : Sources) (name file : Text) (imports : List Import) : Search :=
  Search.run file imports sources.searchBound [⟨name, file⟩] { sources }

end Sources

end ComponentDocs.Types
