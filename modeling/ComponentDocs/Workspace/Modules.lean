import ComponentDocs.Types.Record
import ComponentDocs.Workspace.Basic

/-!
Which file an import refers to.
-/

namespace ComponentDocs.Workspace

open ComponentDocs.Types

/-- Extensions that an import may leave out, in the order in which they are tried. -/
def moduleExtensions : List String := ["ts", "d.ts", "tsx", "js", "mjs", "svelte"]

def withExtension (path : Text) (extension : String) : Text :=
  path ++ '.' :: extension.toList

def sourceOf? (path : Text) : Option Text :=
  if Path.extension? path == some ['j', 's'] then some (path.dropLast.dropLast ++ ['t', 's'])
  else none

def indexFile (directory : Text) (extension : String) : Text :=
  Path.inDirectory directory (withExtension "index" extension)

def moduleCandidates (path : Text) : List Text :=
  path :: moduleExtensions.map (withExtension path) ++ (sourceOf? path).toList ++
    moduleExtensions.map (indexFile path)

def modulePath (importer specifier : Text) : Text :=
  Path.ofComponents (Path.clean (Path.directory importer ++ Path.components specifier))

def resolveModule? (workspace : Workspace) (importer specifier : Text) : Option Text :=
  if isRelativeSpecifier specifier then
    (moduleCandidates (modulePath importer specifier)).find? workspace.isFile
  else none

end ComponentDocs.Workspace
