import ComponentDocs.Types.Closure

/-!
Resolving types over many files, with a log of what went wrong.
-/

namespace ComponentDocs.Types

structure Resolver where
  sources : Sources := {}
  log : List Failure := []
  deriving DecidableEq, Repr

namespace Resolver

def logLimit : Nat := 256

def record (resolver : Resolver) (failures : List Failure) : Resolver :=
  let log := resolver.log ++ failures
  { resolver with log := log.drop (log.length - logLimit) }

def define (resolver : Resolver) (source path : Text) : Resolver × Definitions :=
  let (sources, definitions) := resolver.sources.define source path
  ({ resolver with sources }, definitions)

def resolve (resolver : Resolver) (name file : Text) (imports : List Import) :
    Resolver × Option ResolvedType :=
  let lookup := resolver.sources.lookup name file imports
  (Resolver.record { resolver with sources := lookup.sources } lookup.failures, lookup.found)

/-- The types that a name refers to, directly and through definitions, and the failures
on the way, which are not logged. -/
def collect (resolver : Resolver) (name file : Text) (imports : List Import) :
    Resolver × List ResolvedType × List Failure :=
  let search := resolver.sources.collect name file imports
  ({ resolver with sources := search.sources }, search.found, search.failures)

def resolveAll (resolver : Resolver) (name file : Text) (imports : List Import) :
    Resolver × List ResolvedType :=
  let (next, found, failures) := resolver.collect name file imports
  (next.record failures, found)

def clear (resolver : Resolver) : Resolver :=
  { resolver with sources := { resolver.sources with catalog := {} } }

def takeFailures (resolver : Resolver) : Resolver × List Failure :=
  ({ resolver with log := [] }, resolver.log)

def insertFile (resolver : Resolver) (path : Text) (content : Content) : Resolver :=
  let workspace := resolver.sources.workspace.insert path content
  { resolver with sources := { resolver.sources with workspace } }

def read (resolver : Resolver) (path : Text) : Resolver × Except ReadError Text :=
  let workspace := resolver.sources.workspace
  ({ resolver with sources := { resolver.sources with workspace := workspace.countRead } },
    workspace.text? path)

end Resolver

end ComponentDocs.Types
