import ComponentDocs.Component.Record
import ComponentDocs.Types.Record

/-!
The documentation of a component.
-/

namespace ComponentDocs

structure ComponentDoc where
  api : Component.Api
  types : List Types.ResolvedType := []
  deriving Repr

end ComponentDocs
