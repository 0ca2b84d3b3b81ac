import ComponentDocs.Component.Destructuring
import ComponentDocs.Component.Literal
import ComponentDocs.DocComment

/-!
The interface of a component, read off the tree of its script.

The type of the properties declares parameters and callbacks; taking apart the
properties adds defaults and further parameters; where no properties are taken
apart, exported variables are parameters.  Functions are operations.
-/

namespace ComponentDocs.Script

def Program.commentAt (script : Program) (position : Nat) : DocComment :=
  ((script.docAt position).map DocComment.parse).getD {}

def Program.summaryAt (script : Program) (position : Nat) : Option Text :=
  (script.commentAt position).summary

end ComponentDocs.Script

namespace ComponentDocs.Component

open Script

def addMember (options : Options) (source : Text) (script : Program) (api : ScriptApi)
    (member : Member) : ScriptApi :=
  match member.signature? source with
  | none =>
      api.warn ("Skipping unsupported member `" ++ member.span.normalText source ++ "` of " ++
        options.propsTypeName)
  | some signature =>
      let description := script.summaryAt member.span.start
      match eventName? options.eventPrefix signature.name with
      | some event =>
          api.addEvent
            { name := event, type := signature.type, description, payload := signature.payload,
              source := .callback }
      | none =>
          api.addParameter
            { name := signature.name, type := signature.type, required := !signature.optional,
              description }

def isRuneCall (rune : Text) (declarator : Declarator) : Bool :=
  match declarator.init with
  | some (.call (.identifier name _) _) => name == rune
  | _ => false

def addBinding (options : Options) (source : Text) (api : ScriptApi) (property : BindingProperty) :
    ScriptApi :=
  match property.key.name? with
  | none =>
      api.warn ("Skipping computed property in " ++ options.propsRune ++ "() destructuring")
  | some name =>
      api.addDestructured options name (property.fallback.map (exprValue source))

/-- A variable that is exported as a parameter.  A declared parameter only gets its
default, and its description if it has none. -/
def addExported (source : Text) (description : Option Text) (api : ScriptApi)
    (declarator : Declarator) : ScriptApi :=
  match declarator.binding with
  | .name name =>
      let fallback := declarator.init.map (exprValue source)
      if api.hasParameter name then
        api.updateParameter name fun parameter =>
          let defaulted := parameter.withFallback? fallback
          { defaulted with description := defaulted.description.orElse fun _ => description }
      else
        api.addParameter
          ({ name, type := TypeNode.textOr source unknownType declarator.declaredType,
             required := true, description : Parameter }.withFallback? fallback)
  | .object _ | .array =>
      api.warn ("Skipping destructured export `" ++
        Text.trim (declarator.bindingSpan.text source) ++ "`")

def boundName? : Binding → Option Text
  | .name name => some name
  | .object _ | .array => none

def operationParameter? (source : Text) (doc : DocComment) (parameter : Script.Parameter) :
    Option Parameter :=
  (boundName? parameter.binding).map fun name =>
    let tag := doc.parameter? name
    let hint := (tag.bind ParameterTag.typeHint).getD unknownType
    { name
      type := TypeNode.textOr source hint parameter.declaredType
      required := !parameter.optional
      description := tag.bind ParameterTag.description : Parameter }.withFallback?
      (parameter.fallback.map (exprValue source))

def restParameter? (source : Text) (parameter : Script.Parameter) : Option Parameter :=
  (boundName? parameter.binding).map fun name =>
    { name := "..." ++ name
      type := TypeNode.textOr source unknownType parameter.declaredType
      required := false }

def operation (source : Text) (doc : DocComment) (name : Text) (signature : Signature) :
    Operation :=
  let parameters :=
    signature.parameters.filterMap (operationParameter? source doc) ++
      (signature.rest.bind (restParameter? source)).toList
  { name, parameters
    result := TypeNode.textOr source (doc.resultType.getD noValueType) signature.result
    description := doc.summary.getD (callText name (parameters.map Parameter.name)) }

structure Walk where
  api : ScriptApi := {}
  propsFound : Bool := false
  destructured : List (List BindingProperty) := []
  exported : List (List Declarator × Nat) := []

def Walk.addRune (options : Options) (walk : Walk) (declarator : Declarator) : Walk :=
  if isRuneCall options.propsRune declarator then
    match declarator.binding with
    | .object properties => { walk with destructured := walk.destructured ++ [properties] }
    | .name _ | .array =>
        { walk with api := walk.api.warn (options.propsRune ++ "() result is not destructured") }
  else walk

def Walk.addStatement (options : Options) (source : Text) (script : Program) (walk : Walk)
    (statement : Statement) : Walk :=
  match statement.form with
  | .struct name _ members =>
      if !walk.propsFound && name == options.propsTypeName then
        { walk with
          propsFound := true
          api := members.foldl (addMember options source script) walk.api }
      else walk
  | .bindings isLet declarators =>
      let walk := declarators.foldl (Walk.addRune options) walk
      if statement.exported && isLet then
        { walk with exported := walk.exported ++ [(declarators, statement.span.start)] }
      else walk
  | .function (some name) signature =>
      let doc := script.commentAt statement.span.start
      { walk with api := walk.api.addOperation (operation source doc name signature) }
  | _ => walk

/-- Merge what was found: destructured properties, or else exported variables. -/
def Walk.finish (options : Options) (source : Text) (script : Program) (walk : Walk) : ScriptApi :=
  if walk.destructured.isEmpty then
    walk.exported.foldl
      (fun api (declarators, start) =>
        declarators.foldl (addExported source (script.summaryAt start)) api)
      walk.api
  else
    walk.destructured.foldl
      (fun api properties => properties.foldl (addBinding options source) api) walk.api

def ScriptApi.ofTree (options : Options) (source : Text) (script : Program) : ScriptApi :=
  (script.statements.foldl (Walk.addStatement options source script) {}).finish options source
    script

end ComponentDocs.Component
