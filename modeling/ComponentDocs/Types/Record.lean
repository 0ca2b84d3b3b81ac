import ComponentDocs.Failure

/-!
Declared types, imports and exports of a file.
-/

namespace ComponentDocs.Types

structure Property where
  name : Text
  type : Text
  optional : Bool
  readonly : Bool
  description : Option Text
  deriving DecidableEq, Repr

structure EnumValue where
  name : Text
  value : Option Text
  description : Option Text
  deriving DecidableEq, Repr

inductive Shape where
  | struct (properties : List Property)
  | typeAlias (expansion : Text)
  | enumeration (values : List EnumValue)
  deriving DecidableEq, Repr

structure Declaration where
  name : Text
  text : Text
  description : Option Text
  exported : Bool
  shape : Shape
  deriving DecidableEq, Repr

/-- An import.  `renamed` gives the exported names of those names that were changed,
sorted by the name that is bound. -/
structure Import where
  source : Text
  names : List Text
  renamed : List (Text × Text) := []
  typeOnly : Bool
  deriving DecidableEq, Repr

def isRelativeSpecifier (specifier : Text) : Bool :=
  "./".toList.isPrefixOf specifier || "../".toList.isPrefixOf specifier

namespace Import

def binds (record : Import) (name : Text) : Bool :=
  record.names.contains name

def exportedName (record : Import) (name : Text) : Text :=
  ((record.renamed.find? fun (bound, _) => bound == name).map (·.2)).getD name

def isRelative (record : Import) : Bool :=
  isRelativeSpecifier record.source

end Import

inductive ExportKind where
  | function
  | classDefinition
  | binding
  | interface
  | typeAlias
  | enumeration
  | reExport
  | other
  deriving DecidableEq, Repr

structure Export where
  name : Text
  kind : ExportKind
  isDefault : Bool := false
  deriving DecidableEq, Repr

structure Definitions where
  structs : List Declaration := []
  aliases : List Declaration := []
  enumerations : List Declaration := []
  imports : List Import := []
  exports : List Export := []
  failures : List Failure := []
  deriving DecidableEq, Repr

namespace Definitions

def declarations (definitions : Definitions) : List Declaration :=
  definitions.structs ++ definitions.aliases ++ definitions.enumerations

def get? (definitions : Definitions) (name : Text) : Option Declaration :=
  definitions.declarations.find? fun declaration => declaration.name == name

def addDeclaration (definitions : Definitions) (declaration : Declaration) : Definitions :=
  match declaration.shape with
  | .struct _ => { definitions with structs := definitions.structs ++ [declaration] }
  | .typeAlias _ => { definitions with aliases := definitions.aliases ++ [declaration] }
  | .enumeration _ =>
      { definitions with enumerations := definitions.enumerations ++ [declaration] }

def addExport (definitions : Definitions) (exported : Export) : Definitions :=
  { definitions with exports := definitions.exports ++ [exported] }

def addImport (definitions : Definitions) (imported : Import) : Definitions :=
  { definitions with imports := definitions.imports ++ [imported] }

def addFailures (definitions : Definitions) (failures : List Failure) : Definitions :=
  { definitions with failures := definitions.failures ++ failures }

end Definitions

structure ResolvedType where
  name : Text
  definition : Text
  dependencies : List Text
  sourceFile : Option Text
  deriving DecidableEq, Repr

end ComponentDocs.Types
