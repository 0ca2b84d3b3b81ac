import ComponentDocs.Text.Basic

/-!
What a reader of components can be told.
-/

namespace ComponentDocs

/-- The conventions that components follow, and how far an analysis goes. -/
structure Options where
  propsTypeName : Text := "Props"
  /-- The function whose result is taken apart into parameters. -/
  propsRune : Text := "$props"
  /-- What the names of callbacks start with. -/
  eventPrefix : Text := "on"
  dispatchFunction : Text := "dispatch"
  /-- How long an analysis may take, in milliseconds. -/
  timeoutMillis : Nat := 5000
  resolveTypes : Bool := true
  deriving DecidableEq, Repr

end ComponentDocs
