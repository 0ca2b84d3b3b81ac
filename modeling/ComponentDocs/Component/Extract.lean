import ComponentDocs.Component.FromText
import ComponentDocs.Component.FromTree
import ComponentDocs.Component.Template
import ComponentDocs.Script.Parse
import ComponentDocs.Sections

/-!
The interface of a component file.

Its script is read as a tree, or as text when it does not parse; its template is
scanned beside it.
-/

namespace ComponentDocs.Component

def mergeEvents (declared dispatched : List Event) : List Event :=
  declared ++ dispatched.filter fun event =>
    !declared.any fun known => known.name == event.name

/-- What a script declares, how it was read, and why it could not be parsed. -/
def readScript (options : Options) (file source : Text) : ScriptApi × Strategy × List Failure :=
  match Script.parse? Script.Language.ofComponents source with
  | some script => (ScriptApi.ofTree options source script, .tree, [])
  | none => (ScriptApi.ofText options source, .patterns, [Failure.unparsed file])

def Api.ofSource (options : Options) (metadata : Metadata) (source : Text) : Api :=
  let sections := Sections.ofSource source
  let (script, strategy, failures) :=
    if sections.hasScript then readScript options metadata.path sections.script
    else ({}, .absent, [])
  let template := TemplateApi.scan options sections.template sections.script
  { metadata, strategy, failures
    parameters := script.parameters
    events := mergeEvents script.events template.events
    slots := template.slots
    operations := script.operations
    description := template.description
    warnings := script.warnings }

end ComponentDocs.Component
