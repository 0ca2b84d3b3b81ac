import ComponentDocs.Dictionary
import ComponentDocs.Number.Binary64

/-!
JSON values.
-/

namespace ComponentDocs

open Number

/-- A JSON value.  Whole numbers and fractions are told apart, and the fields of an
object keep their order. -/
inductive Json where
  | null
  | bool (value : Bool)
  | integer (value : Int)
  | float (value : Binary64)
  | string (value : Text)
  | array (items : List Json)
  | object (fields : List (Text × Json))
  deriving Repr, Inhabited

namespace Json

def field? (name : Text) : Json → Option Json
  | .object fields => (fields.find? fun (key, _) => key == name).map (·.2)
  | _ => none

/-- The object with fields in the order of their names; of two with one name the
last one counts. -/
def ofFields (fields : List (Text × Json)) : Json :=
  .object (Dictionary.ofList fields)

end Json

end ComponentDocs
