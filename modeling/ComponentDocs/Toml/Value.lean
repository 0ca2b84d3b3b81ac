import ComponentDocs.Text.Basic

/-!
Values of TOML documents.
-/

namespace ComponentDocs.Toml

/-- A value.  Fractions and dates are kept as they are written. -/
inductive Value where
  | text (value : Text)
  | integer (value : Int)
  | flag (value : Bool)
  | fraction (spelling : Text)
  | date (spelling : Text)
  | list (items : List Value)
  | table (entries : List (Text × Value))
  deriving Repr, Inhabited

end ComponentDocs.Toml
