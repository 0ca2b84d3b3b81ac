import ComponentDocs.Component.FromTree
import ComponentDocs.Script.Parse
import ComponentDocs.Sections
import ComponentDocs.Types.Record

/-!
Collecting the types, imports and exports of a file.
-/

namespace ComponentDocs.Types

open Script

def unsupportedMember (file source owner : Text) (member : Member) : Failure :=
  { file, kind := .typing
    message := "unsupported member `" ++ member.span.normalText source ++ "` in " ++ owner }

def property? (source : Text) (script : Program) (member : Member) : Option Property :=
  (member.signature? source).map fun signature =>
    { name := signature.name, type := signature.type, optional := signature.optional,
      readonly := signature.readonly, description := script.summaryAt member.span.start }

def memberFailures (file source owner : Text) (members : List Member) : List Failure :=
  (members.filter fun member => (member.signature? source).isNone).map
    (unsupportedMember file source owner)

def enumValue? (source : Text) (script : Program) (member : EnumMember) : Option EnumValue :=
  member.name.map fun name =>
    { name, value := member.init.map fun span => span.normalText source
      description := script.summaryAt member.span.start }

def enumFailures (file source owner : Text) (members : List EnumMember) : List Failure :=
  (members.filter fun member => member.name.isNone).map fun member =>
    { file, kind := .typing
      message := "computed member `" ++ member.span.text source ++ "` in enum " ++ owner }

def insertRenamed (bound exported : Text) : List (Text × Text) → List (Text × Text)
  | [] => [(bound, exported)]
  | (key, old) :: rest =>
      if bound == key then (bound, exported) :: rest
      else if bound < key then (bound, exported) :: (key, old) :: rest
      else (key, old) :: insertRenamed bound exported rest

def importRecord (source : Text) (typeOnly : Bool) (names : List ImportedName) : Import :=
  { source, typeOnly
    names := names.map ImportedName.bound
    renamed := names.foldl
      (fun renamed name =>
        if name.imported == name.bound then renamed
        else insertRenamed name.bound name.imported renamed)
      [] }

def exportOf? (statement : Statement) (name : Option Text) (kind : ExportKind) : Option Export :=
  if !statement.exported then none
  else if statement.isDefault then some { name := "default", kind, isDefault := true }
  else name.map fun name => { name, kind }

def Definitions.addExported (definitions : Definitions) (statement : Statement)
    (name : Option Text) (kind : ExportKind) : Definitions :=
  match exportOf? statement name kind with
  | some exported => definitions.addExport exported
  | none => definitions

def Definitions.addStatement (file source : Text) (script : Program) (definitions : Definitions)
    (statement : Statement) : Definitions :=
  let declare (definitions : Definitions) (name : Text) (shape : Shape) : Definitions :=
    definitions.addDeclaration
      { name, shape, text := statement.declarationSpan.text source
        description := script.summaryAt statement.span.start
        exported := statement.exported }
  match statement.form with
  | .struct name isInterface members =>
      let failed := definitions.addFailures (memberFailures file source name members)
      (declare failed name (.struct (members.filterMap (property? source script)))).addExported
        statement name (if isInterface then .interface else .typeAlias)
  | .typeAlias name aliased =>
      (declare definitions name (.typeAlias (aliased.text source))).addExported statement name
        .typeAlias
  | .enumeration name members =>
      let failed := definitions.addFailures (enumFailures file source name members)
      let values := members.filterMap (enumValue? source script)
      (declare failed name (.enumeration values)).addExported statement name .enumeration
  | .bindings _ declarators =>
      if statement.exported then
        (declarators.filterMap fun declarator =>
            Component.boundName? declarator.binding).foldl
          (fun definitions name => definitions.addExport { name, kind := .binding }) definitions
      else definitions
  | .function name _ => definitions.addExported statement name .function
  | .classDefinition name => definitions.addExported statement name .classDefinition
  | .imports origin typeOnly names => definitions.addImport (importRecord origin typeOnly names)
  | .exportList origin names =>
      let kind := if origin.isSome then ExportKind.reExport else .other
      names.foldl (fun definitions name => definitions.addExport { name, kind }) definitions
  | .exportAll _ name => definitions.addExport { name := name.getD "*", kind := .reExport }
  | .defaultExpression =>
      definitions.addExport { name := "default", kind := .other, isDefault := true }
  | .unsupported => definitions

def Definitions.addScript (language : Language) (file : Text) (definitions : Definitions)
    (source : Text) : Definitions :=
  match Script.parse? language source with
  | some script =>
      script.statements.foldl (Definitions.addStatement file source script) definitions
  | none => definitions.addFailures [Failure.unparsed file]

def isComponentPath (path : Text) : Bool :=
  ".svelte".toList.isSuffixOf path

/-- The types, imports and exports of a file.  A component contributes its module
script and its instance script, unless they are blank. -/
def Definitions.ofSource (source path : Text) : Definitions :=
  if isComponentPath path then
    let sections := Sections.ofSource source
    ([sections.moduleScript, sections.script].filter fun script => !Text.isBlank script).foldl
      (Definitions.addScript Language.ofComponents path) {}
  else Definitions.addScript (Language.ofPath path) path {} source

end ComponentDocs.Types
