import ComponentDocs.Component.Naming
import ComponentDocs.Component.Record
import ComponentDocs.Options
import ComponentDocs.Script.TypeText

/-!
Parameters that a script takes apart from the properties it is given.
-/

namespace ComponentDocs.Component

def undeclared (name : Text) (fallback : Option Json) : Parameter :=
  { name, type := Script.unknownType, required := true : Parameter }.withFallback? fallback

/-- Add a variable that is taken apart from the properties.  A known parameter only
gets its default, and a callback whose event is known is passed over. -/
def ScriptApi.addDestructured (options : Options) (api : ScriptApi) (name : Text)
    (fallback : Option Json) : ScriptApi :=
  if api.hasParameter name then
    api.updateParameter name fun parameter => parameter.withFallback? fallback
  else
    match eventName? options.eventPrefix name with
    | some event =>
        if api.hasEvent event then api else api.addParameter (undeclared name fallback)
    | none => api.addParameter (undeclared name fallback)

end ComponentDocs.Component
