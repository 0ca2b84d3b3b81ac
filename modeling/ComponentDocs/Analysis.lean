import ComponentDocs.Component.Extract
import ComponentDocs.Document.Record
import ComponentDocs.Types.Resolver

/-!
The documentation of a component file.
-/

namespace ComponentDocs

open ComponentDocs.Types

/-- Why there is no documentation of a component. -/
inductive AnalysisError where
  | unreadable (path : Text) (cause : ReadError)
  | timedOut (path : Text)
  deriving DecidableEq, Repr

def AnalysisError.describe : AnalysisError → Text
  | .unreadable path cause => "failed to read component '" ++ path ++ "': " ++ cause.describe
  | .timedOut path => "analysis of '" ++ path ++ "' timed out after 0ns"

def referencedTypes (parameters : List Component.Parameter) : List Text :=
  Text.firstOccurrences (parameters.flatMap fun parameter => dependencyNames parameter.type [])

def addTypes (types more : List ResolvedType) : List ResolvedType :=
  more.foldl
    (fun types type => if types.any fun known => known.name == type.name then types
      else types ++ [type])
    types

def collectType (file : Text) (imports : List Import) :
    Resolver × List ResolvedType × List Failure → Text →
      Resolver × List ResolvedType × List Failure
  | (resolver, types, failures), name =>
      let (next, found, failed) := resolver.collect name file imports
      (next, addTypes types found, failures ++ failed)

def collectTypes (file : Text) (imports : List Import) (names : List Text) (resolver : Resolver) :
    Resolver × List ResolvedType × List Failure :=
  names.foldl (collectType file imports) (resolver, [], [])

def analyze (options : Options) (resolver : Resolver) (path : Text)
    (metadata : Component.Metadata) : Resolver × Except AnalysisError ComponentDoc :=
  let (resolver, source) := resolver.read path
  match source with
  | .error cause => (resolver, .error (.unreadable path cause))
  | .ok source =>
      if options.timeoutMillis == 0 then (resolver, .error (.timedOut path))
      else
        let api := Component.Api.ofSource options metadata source
        let (resolver, definitions) := resolver.define source path
        if options.resolveTypes then
          let (resolver, types, failures) :=
            collectTypes path definitions.imports (referencedTypes api.parameters) resolver
          (resolver, .ok { api := { api with failures := api.failures ++ failures }, types })
        else (resolver, .ok { api })

end ComponentDocs
