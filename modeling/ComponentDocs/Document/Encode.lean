import ComponentDocs.Document.Record
import ComponentDocs.Options

/-!
Records as JSON.  Fields stand in a fixed order, and what is absent is left out.
-/

namespace ComponentDocs

open ComponentDocs.Component ComponentDocs.Types

namespace Json

def present (name : Text) (value : Json) : List (Text × Json) :=
  [(name, value)]

def whenSome (name : Text) (value : Option Json) : List (Text × Json) :=
  (value.map fun value => (name, value)).toList

def whenNonempty (name : Text) (items : List Json) : List (Text × Json) :=
  if items.isEmpty then [] else [(name, .array items)]

def ofTexts (entries : List (Text × Text)) : Json :=
  .object (entries.map fun (name, value) => (name, .string value))

def ofTextList (texts : List Text) : Json :=
  .array (texts.map .string)

def ofText? (text : Option Text) : Option Json :=
  text.map .string

end Json

open Json (present whenSome whenNonempty ofText?)

def FailureKind.toJson (kind : FailureKind) : Json :=
  .string kind.word

def Failure.toJson (failure : Failure) : Json :=
  .object (present "file" (.string failure.file) ++ present "message" (.string failure.message) ++
    present "kind" failure.kind.toJson)

namespace Component

def Metadata.toJson (metadata : Metadata) : Json :=
  .object (present "name" (.string metadata.name) ++
    whenSome "category" (ofText? metadata.category) ++ present "path" (.string metadata.path))

def Parameter.toJson (parameter : Parameter) : Json :=
  .object (present "name" (.string parameter.name) ++ present "type" (.string parameter.type) ++
    present "required" (.bool parameter.required) ++ whenSome "defaultValue" parameter.fallback ++
    whenSome "description" (ofText? parameter.description))

def EventSource.word : EventSource → Text
  | .callback => "prop"
  | .dispatch => "dispatched"

def Event.toJson (event : Event) : Json :=
  .object (present "name" (.string event.name) ++ present "type" (.string event.type) ++
    whenSome "description" (ofText? event.description) ++
    whenSome "payloadType" (ofText? event.payload) ++
    present "source" (.string event.source.word))

def Slot.toJson (slot : Slot) : Json :=
  .object (present "name" (.string slot.name) ++
    whenSome "description" (ofText? slot.description) ++
    whenSome "props" (slot.attributes.map Json.ofTexts))

def Operation.toJson (operation : Operation) : Json :=
  .object (present "name" (.string operation.name) ++
    present "parameters" (.array (operation.parameters.map Parameter.toJson)) ++
    present "returnType" (.string operation.result) ++
    present "description" (.string operation.description))

def Strategy.word : Strategy → Text
  | .tree => "tree_walk"
  | .patterns => "pattern"
  | .absent => "none"

def Api.toJson (api : Api) : Json :=
  .object (present "metadata" api.metadata.toJson ++
    present "parameters" (.array (api.parameters.map Parameter.toJson)) ++
    present "events" (.array (api.events.map Event.toJson)) ++
    present "slots" (.array (api.slots.map Slot.toJson)) ++
    present "operations" (.array (api.operations.map Operation.toJson)) ++
    whenSome "description" (ofText? api.description) ++
    whenNonempty "failures" (api.failures.map Failure.toJson) ++
    whenNonempty "warnings" (api.warnings.map .string) ++
    present "strategy" (.string api.strategy.word))

end Component

namespace Types

def Property.toJson (property : Property) : Json :=
  .object (present "name" (.string property.name) ++ present "type" (.string property.type) ++
    present "optional" (.bool property.optional) ++ present "readonly" (.bool property.readonly) ++
    whenSome "description" (ofText? property.description))

def EnumValue.toJson (value : EnumValue) : Json :=
  .object (present "name" (.string value.name) ++ whenSome "value" (ofText? value.value) ++
    whenSome "description" (ofText? value.description))

def Shape.fields : Shape → List (Text × Json)
  | .struct properties =>
      present "kind" (.string "struct") ++
        present "properties" (.array (properties.map Property.toJson))
  | .typeAlias expansion =>
      present "kind" (.string "alias") ++ present "expansion" (.string expansion)
  | .enumeration values =>
      present "kind" (.string "enum") ++ present "values" (.array (values.map EnumValue.toJson))

def Declaration.toJson (declaration : Declaration) : Json :=
  .object (present "name" (.string declaration.name) ++
    present "rawText" (.string declaration.text) ++
    whenSome "description" (ofText? declaration.description) ++
    present "exported" (.bool declaration.exported) ++ declaration.shape.fields)

def Import.toJson (record : Import) : Json :=
  .object (present "sourceModule" (.string record.source) ++
    present "importedNames" (Json.ofTextList record.names) ++
    whenSome "renamed"
      (if record.renamed.isEmpty then none else some (Json.ofTexts record.renamed)) ++
    present "isTypeOnly" (.bool record.typeOnly))

def ExportKind.word : ExportKind → Text
  | .function => "function"
  | .classDefinition => "class"
  | .binding => "variable"
  | .interface => "interface"
  | .typeAlias => "typeAlias"
  | .enumeration => "enum"
  | .reExport => "reExport"
  | .other => "other"

def Export.toJson (record : Export) : Json :=
  .object (present "name" (.string record.name) ++ present "kind" (.string record.kind.word) ++
    present "isDefault" (.bool record.isDefault))

def Definitions.toJson (definitions : Definitions) : Json :=
  .object (present "structs" (.array (definitions.structs.map Declaration.toJson)) ++
    present "aliases" (.array (definitions.aliases.map Declaration.toJson)) ++
    present "enums" (.array (definitions.enumerations.map Declaration.toJson)) ++
    present "imports" (.array (definitions.imports.map Import.toJson)) ++
    present "exports" (.array (definitions.exports.map Export.toJson)) ++
    whenNonempty "failures" (definitions.failures.map Failure.toJson))

def ResolvedType.toJson (type : ResolvedType) : Json :=
  .object (present "name" (.string type.name) ++
    present "definitionText" (.string type.definition) ++
    present "dependencyNames" (Json.ofTextList type.dependencies) ++
    whenSome "sourceFile" (ofText? type.sourceFile))

end Types

def ComponentDoc.toJson (doc : ComponentDoc) : Json :=
  .object (present "api" doc.api.toJson ++
    whenNonempty "types" (doc.types.map ResolvedType.toJson))

def Options.toJson (options : Options) : Json :=
  .object (present "props_type_name" (.string options.propsTypeName) ++
    present "props_rune" (.string options.propsRune) ++
    present "event_prefix" (.string options.eventPrefix) ++
    present "dispatch_function" (.string options.dispatchFunction) ++
    present "analysis_timeout_ms" (.integer options.timeoutMillis) ++
    present "resolve_parameter_types" (.bool options.resolveTypes))

end ComponentDocs
