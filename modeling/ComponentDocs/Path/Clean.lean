import ComponentDocs.Path

/-!
Clean paths: without single points, and without a step to a directory and back.
-/

namespace ComponentDocs.Path

def cleanStep (cleaned : List Component) (step : Component) : List Component :=
  match step, cleaned with
  | .current, _ => cleaned
  | .parent, .root :: _ => cleaned
  | .parent, .normal _ :: rest => rest
  | step, _ => step :: cleaned

def clean (steps : List Component) : List Component :=
  (steps.foldl cleanStep []).reverse

def Component.text : Component → Text
  | .root => "/"
  | .current => "."
  | .parent => ".."
  | .normal name => name

def ofComponents : List Component → Text
  | [] => "."
  | .root :: steps => '/' :: Text.join "/" (steps.map Component.text)
  | steps => Text.join "/" (steps.map Component.text)

def directory (path : Text) : List Component :=
  let steps := components path
  if steps.getLast? == some .root then [] else steps.dropLast

def inDirectory (directory name : Text) : Text :=
  if directory.getLast? == some '/' then directory ++ name else directory ++ '/' :: name

end ComponentDocs.Path
