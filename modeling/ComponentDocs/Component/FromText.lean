import ComponentDocs.Component.Destructuring
import ComponentDocs.Component.Fallback.Lines
import ComponentDocs.Component.Literal

/-!
The interface of a component, recovered from the text of a script that does not
parse.
-/

namespace ComponentDocs.Component

def addMemberText (options : Options) (api : ScriptApi) (found : MemberText) : ScriptApi :=
  match member? found.text with
  | none =>
      api.warn ("Skipping unrecognized member `" ++ found.text ++ "` of " ++ options.propsTypeName)
  | some member =>
      match eventName? options.eventPrefix member.name with
      | some event =>
          api.addEvent
            { name := event, type := member.type, description := found.description,
              source := .callback }
      | none =>
          api.addParameter
            { name := member.name, type := member.type, required := !member.optional,
              description := found.description }

def addEntry (options : Options) (api : ScriptApi) (entry : FoundBinding × Option Text) :
    ScriptApi :=
  let (binding, fallback) := entry
  if binding.isRest then api
  else api.addDestructured options binding.name (fallback.map textValue)

def exportParameter (found : FoundExport) : Parameter :=
  { name := found.name
    type := (found.type.map cleanType).getD Script.unknownType
    required := true : Parameter }.withFallback? (found.fallback.map textValue)

def functionParameter (entry : FoundBinding × Option Text) : Parameter :=
  let (binding, fallback) := entry
  { name := (if binding.isRest then ("..." : Text) else []) ++ binding.name
    type := binding.type.getD Script.unknownType
    required := !binding.isRest && !binding.optional : Parameter }.withFallback?
    (fallback.map textValue)

def functionOperation (found : FoundFunction) : Operation :=
  let parameters := (entries found.parameters).map functionParameter
  { name := found.name, parameters
    result := found.result.getD Script.noValueType
    description := callText found.name (parameters.map Parameter.name) }

def ScriptApi.ofText (options : Options) (source : Text) : ScriptApi :=
  let members := ((typeBody? options.propsTypeName source).map memberTexts).getD []
  let api : ScriptApi := members.foldl (addMemberText options) {}
  let patterns := destructuredTexts options.propsRune source
  let api :=
    if patterns.isEmpty then
      (foundExports source).foldl (fun api found => api.addParameter (exportParameter found)) api
    else (patterns.flatMap entries).foldl (addEntry options) api
  (foundFunctions source).foldl (fun api found => api.addOperation (functionOperation found)) api

end ComponentDocs.Component
