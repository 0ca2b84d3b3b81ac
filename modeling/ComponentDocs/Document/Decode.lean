import ComponentDocs.Document.Encode

/-!
Records from JSON.

A record is an object with its fields, or an array with the values of its fields
in order.  Fields of other names are ignored.
-/

namespace ComponentDocs

open ComponentDocs.Component ComponentDocs.Types

namespace Json

def text? : Json → Option Text
  | .string value => some value
  | _ => none

def bool? : Json → Option Bool
  | .bool value => some value
  | _ => none

def natural? : Json → Option Nat
  | .integer value => if 0 ≤ value && value < Int.pow 2 64 then some value.toNat else none
  | _ => none

def list? {α : Type} (item : Json → Option α) : Json → Option (List α)
  | .array items => items.mapM item
  | _ => none

def texts? : Json → Option (List (Text × Text))
  | .object fields => fields.mapM fun (name, value) => value.text?.map fun text => (name, text)
  | _ => none

/-- One of several values by its word; the word may also be the only field of an
object, without a value. -/
def word? {α : Type} (word : α → Text) (values : List α) : Json → Option α
  | .string text => values.find? fun value => word value == text
  | .object [(text, .null)] => values.find? fun value => word value == text
  | _ => none

end Json

structure Fields where
  entries : List (Text × Json)
  positional : Bool

namespace Fields

def of? (names : List Text) : Json → Option Fields
  | .object entries => some ⟨entries, false⟩
  | .array items => if items.length ≤ names.length then some ⟨names.zip items, true⟩ else none
  | _ => none

variable {α : Type}

def find? (fields : Fields) (name : Text) : Option Json :=
  (fields.entries.find? fun (key, _) => key == name).map (·.2)

def required (fields : Fields) (name : Text) (decode : Json → Option α) : Option α :=
  (fields.find? name).bind decode

def nullable (decode : Json → Option α) : Json → Option (Option α)
  | .null => some none
  | value => (decode value).map some

def optional (fields : Fields) (name : Text) (decode : Json → Option α) : Option (Option α) :=
  match fields.find? name with
  | none => some none
  | some value => nullable decode value

/-- A field that may be missing or null, but not among values without names. -/
def named (fields : Fields) (name : Text) (decode : Json → Option α) : Option (Option α) :=
  match fields.find? name with
  | none => if fields.positional then none else some none
  | some value => nullable decode value

/-- A field that may be missing but not null. -/
def defaulted (fields : Fields) (name : Text) (absent : α) (decode : Json → Option α) : Option α :=
  match fields.find? name with
  | none => some absent
  | some value => decode value

end Fields

def Failure.ofJson? (json : Json) : Option Failure := do
  let fields ← Fields.of? ["file", "message", "kind"] json
  let file ← fields.required "file" Json.text?
  let message ← fields.required "message" Json.text?
  let kind ← fields.required "kind" (Json.word? FailureKind.word FailureKind.all)
  return { file, message, kind }

namespace Component

def Metadata.ofJson? (json : Json) : Option Metadata := do
  let fields ← Fields.of? ["name", "category", "path"] json
  let name ← fields.required "name" Json.text?
  let category ← fields.named "category" Json.text?
  let path ← fields.required "path" Json.text?
  return { name, category, path }

def Parameter.ofJson? (json : Json) : Option Parameter := do
  let fields ← Fields.of? ["name", "type", "required", "defaultValue", "description"] json
  let name ← fields.required "name" Json.text?
  let type ← fields.required "type" Json.text?
  let required ← fields.required "required" Json.bool?
  let fallback ← fields.optional "defaultValue" some
  let description ← fields.optional "description" Json.text?
  return { name, type, required, fallback, description }

def EventSource.all : List EventSource := [.callback, .dispatch]

def Event.ofJson? (json : Json) : Option Event := do
  let fields ← Fields.of? ["name", "type", "description", "payloadType", "source"] json
  let name ← fields.required "name" Json.text?
  let type ← fields.required "type" Json.text?
  let description ← fields.optional "description" Json.text?
  let payload ← fields.optional "payloadType" Json.text?
  let source ← fields.required "source" (Json.word? EventSource.word EventSource.all)
  return { name, type, description, payload, source }

def Slot.ofJson? (json : Json) : Option Slot := do
  let fields ← Fields.of? ["name", "description", "props"] json
  let name ← fields.required "name" Json.text?
  let description ← fields.optional "description" Json.text?
  let attributes ← fields.optional "props" Json.texts?
  return { name, description, attributes }

def Operation.ofJson? (json : Json) : Option Operation := do
  let fields ← Fields.of? ["name", "parameters", "returnType", "description"] json
  let name ← fields.required "name" Json.text?
  let parameters ← fields.required "parameters" (Json.list? Parameter.ofJson?)
  let result ← fields.required "returnType" Json.text?
  let description ← fields.required "description" Json.text?
  return { name, parameters, result, description }

def Strategy.all : List Strategy := [.tree, .patterns, .absent]

def Api.ofJson? (json : Json) : Option Api := do
  let fields ← Fields.of?
    ["metadata", "parameters", "events", "slots", "operations", "description", "failures",
      "warnings", "strategy"] json
  let metadata ← fields.required "metadata" Metadata.ofJson?
  let parameters ← fields.required "parameters" (Json.list? Parameter.ofJson?)
  let events ← fields.required "events" (Json.list? Event.ofJson?)
  let slots ← fields.required "slots" (Json.list? Slot.ofJson?)
  let operations ← fields.required "operations" (Json.list? Operation.ofJson?)
  let description ← fields.optional "description" Json.text?
  let failures ← fields.defaulted "failures" [] (Json.list? Failure.ofJson?)
  let warnings ← fields.defaulted "warnings" [] (Json.list? Json.text?)
  let strategy ← fields.required "strategy" (Json.word? Strategy.word Strategy.all)
  return { metadata, parameters, events, slots, operations, description, failures, warnings,
           strategy }

end Component

namespace Types

def Import.ofJson? (json : Json) : Option Import := do
  let fields ← Fields.of? ["sourceModule", "importedNames", "renamed", "isTypeOnly"] json
  let source ← fields.required "sourceModule" Json.text?
  let names ← fields.required "importedNames" (Json.list? Json.text?)
  let renamed ← fields.defaulted "renamed" [] Json.texts?
  let typeOnly ← fields.required "isTypeOnly" Json.bool?
  return { source, names, renamed, typeOnly }

def ResolvedType.ofJson? (json : Json) : Option ResolvedType := do
  let fields ← Fields.of? ["name", "definitionText", "dependencyNames", "sourceFile"] json
  let name ← fields.required "name" Json.text?
  let definition ← fields.required "definitionText" Json.text?
  let dependencies ← fields.required "dependencyNames" (Json.list? Json.text?)
  let sourceFile ← fields.optional "sourceFile" Json.text?
  return { name, definition, dependencies, sourceFile }

end Types

def ComponentDoc.ofJson? (json : Json) : Option ComponentDoc := do
  let fields ← Fields.of? ["api", "types"] json
  let api ← fields.required "api" Api.ofJson?
  let types ← fields.defaulted "types" [] (Json.list? ResolvedType.ofJson?)
  return { api, types }

def Options.ofJson? (json : Json) : Option Options := do
  let fields ← Fields.of?
    ["props_type_name", "props_rune", "event_prefix", "dispatch_function", "analysis_timeout_ms",
      "resolve_parameter_types"] json
  let absent : Options := {}
  let propsTypeName ← fields.defaulted "props_type_name" absent.propsTypeName Json.text?
  let propsRune ← fields.defaulted "props_rune" absent.propsRune Json.text?
  let eventPrefix ← fields.defaulted "event_prefix" absent.eventPrefix Json.text?
  let dispatchFunction ← fields.defaulted "dispatch_function" absent.dispatchFunction Json.text?
  let timeoutMillis ← fields.defaulted "analysis_timeout_ms" absent.timeoutMillis Json.natural?
  let resolveTypes ← fields.defaulted "resolve_parameter_types" absent.resolveTypes Json.bool?
  return { propsTypeName, propsRune, eventPrefix, dispatchFunction, timeoutMillis, resolveTypes }

end ComponentDocs
