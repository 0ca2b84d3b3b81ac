import ComponentDocs.Options.Environment
import ComponentDocs.Toml.Read

/-!
Options from a file and from the environment.
-/

namespace ComponentDocs

def fileSettings? (text : Text) : Option Settings :=
  (Toml.read? text).map fun entries =>
    entries.map fun (name, value) => (name, Setting.ofValue value)

/-- Options from a file, if there is one, and from environment variables, which come
after it.  There are none if the file is malformed or a setting is of the wrong
kind. -/
def Options.load? (file : Option Text) (environment : List (Text × Text)) : Option Options := do
  let settings ← (file.map fileSettings?).getD (some [])
  Options.ofSettings? (settings ++ Environment.settings environment)

end ComponentDocs
