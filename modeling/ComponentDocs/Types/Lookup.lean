import ComponentDocs.Types.Catalog
import ComponentDocs.Types.Definitions
import ComponentDocs.Workspace.Modules

/-!
Looking up the type that a name refers to in a file.

A name is looked for among the types that were looked up before, then among all
known declarations, and then in the file that an import names.
-/

namespace ComponentDocs.Types

structure Sources where
  workspace : Workspace := {}
  catalog : Catalog := {}
  deriving DecidableEq, Repr

structure Lookup where
  sources : Sources
  found : Option ResolvedType := none
  failures : List Failure := []
  deriving DecidableEq, Repr

def importFailure (file message : Text) : Failure :=
  { file, message, kind := .importing }

namespace Sources

def define (sources : Sources) (source path : Text) : Sources × Definitions :=
  let definitions := Definitions.ofSource source path
  ({ sources with catalog := sources.catalog.addFile path definitions }, definitions)

def load (sources : Sources) (path : Text) : Sources × List Failure :=
  if sources.catalog.knowsFile path then (sources, [])
  else
    let read := { sources with workspace := sources.workspace.countRead }
    match sources.workspace.text? path with
    | .ok source =>
        let (defined, definitions) := read.define source path
        (defined, definitions.failures)
    | .error error =>
        ({ read with catalog := read.catalog.markFile path },
          [importFailure path ("cannot read module: " ++ error.describe)])

def remember (sources : Sources) (file name : Text) (known : Known) : Lookup :=
  let type := known.resolve name
  { sources := { sources with catalog := sources.catalog.addResolved file type }
    found := some type }

def lookupIn (sources : Sources) (target file name exported : Text) : Lookup :=
  let (loaded, failures) := sources.load target
  match loaded.catalog.declarationIn? target exported with
  | some known => { loaded.remember file name known with failures }
  | none => { sources := loaded, failures }

def lookupImported (sources : Sources) (file name : Text) (record : Import) : Lookup :=
  if record.isRelative then
    match sources.workspace.resolveModule? file record.source with
    | some target => sources.lookupIn target file name (record.exportedName name)
    | none =>
        { sources
          failures := [importFailure file ("cannot resolve module '" ++ record.source ++ "'")] }
  else
    { sources
      failures :=
        [importFailure file
          ("cannot follow non-relative import '" ++ record.source ++ "' for type " ++ name)] }

def lookup (sources : Sources) (name file : Text) (imports : List Import) : Lookup :=
  match sources.catalog.resolved? file name with
  | some type => { sources, found := some type }
  | none =>
      match sources.catalog.declaration? name with
      | some known => sources.remember file name known
      | none =>
          match imports.find? fun record => record.binds name with
          | some record => sources.lookupImported file name record
          | none => { sources }

end Sources

end ComponentDocs.Types
