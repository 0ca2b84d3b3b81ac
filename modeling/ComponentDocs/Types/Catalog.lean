import ComponentDocs.Table
import ComponentDocs.Types.Dependencies
import ComponentDocs.Types.Record

/-!
What is known about the types of the files that were read.
-/

namespace ComponentDocs.Types

structure Known where
  declaration : Declaration
  file : Text
  deriving DecidableEq, Repr

def Known.resolve (known : Known) (name : Text) : ResolvedType :=
  { name
    definition := known.declaration.text
    dependencies := dependencyNames known.declaration.text known.declaration.name
    sourceFile := some known.file }

def fileKey (file name : Text) : Text :=
  file ++ ':' :: name

structure Catalog where
  /-- Declarations under their names and under their names with their files. -/
  declarations : Table Text Known := {}
  resolved : Table (Text × Text) ResolvedType := {}
  imports : Table Text (List Import) := {}
  files : Table Text Unit := {}
  deriving DecidableEq, Repr

namespace Catalog

/-- Add one declaration of a file.  The newest one of a name counts. -/
def addDeclaration (file : Text) (declarations : Table Text Known) (declaration : Declaration) :
    Table Text Known :=
  let known : Known := ⟨declaration, file⟩
  (declarations.insert (fileKey file declaration.name) known).insert declaration.name known

def markFile (catalog : Catalog) (file : Text) : Catalog :=
  { catalog with files := catalog.files.insert file () }

def addFile (catalog : Catalog) (file : Text) (definitions : Definitions) : Catalog :=
  { catalog with
    declarations := definitions.declarations.foldl (addDeclaration file) catalog.declarations
    imports := catalog.imports.insert file definitions.imports
    files := catalog.files.insert file () }

def knowsFile (catalog : Catalog) (file : Text) : Bool :=
  catalog.files.contains file

def declaration? (catalog : Catalog) (key : Text) : Option Known :=
  catalog.declarations.find? key

def declarationIn? (catalog : Catalog) (file name : Text) : Option Known :=
  (catalog.declaration? (fileKey file name)).orElse fun _ => catalog.declaration? name

def importsOf (catalog : Catalog) (file : Text) : List Import :=
  (catalog.imports.find? file).getD []

def resolved? (catalog : Catalog) (file name : Text) : Option ResolvedType :=
  catalog.resolved.find? (file, name)

def addResolved (catalog : Catalog) (file : Text) (type : ResolvedType) : Catalog :=
  { catalog with resolved := catalog.resolved.insertNew (file, type.name) type }

end Catalog

end ComponentDocs.Types
