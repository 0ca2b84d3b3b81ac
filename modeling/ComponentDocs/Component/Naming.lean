import ComponentDocs.Text.Lowercase

/-!
Which members of a component are events, and what operations are called.
-/

namespace ComponentDocs.Component

/-- The event that a callback of this name reports: the rest of the name behind the
marker, in lower case.  A bare marker names none. -/
def eventName? (marker name : Text) : Option Text :=
  match Text.after? marker name with
  | some (c :: rest) => some (Text.lowercase (c :: rest))
  | _ => none

def callText (name : Text) (parameters : List Text) : Text :=
  "Calls " ++ name ++ "(" ++ Text.join ", " parameters ++ ")"

end ComponentDocs.Component
