import ComponentDocs.Failure
import ComponentDocs.Json.Basic
import ComponentDocs.Path

/-!
The public interface of a component: parameters, events, slots and operations.
-/

namespace ComponentDocs.Component

structure Metadata where
  name : Text
  category : Option Text
  path : Text
  deriving DecidableEq, Repr

def Metadata.ofPath (path : Text) : Metadata :=
  { name := (Path.stem? path).getD path, category := none, path }

structure Parameter where
  name : Text
  type : Text
  required : Bool
  fallback : Option Json := none
  description : Option Text := none
  deriving Repr

def Parameter.withFallback (parameter : Parameter) (value : Json) : Parameter :=
  { parameter with fallback := some value, required := false }

def Parameter.withFallback? (parameter : Parameter) : Option Json → Parameter
  | none => parameter
  | some value => parameter.withFallback value

inductive EventSource where
  | callback
  | dispatch
  deriving DecidableEq, Repr

structure Event where
  name : Text
  type : Text
  description : Option Text := none
  payload : Option Text := none
  source : EventSource
  deriving DecidableEq, Repr

def Event.dispatched (name : Text) : Event :=
  { name, type := "dispatched", payload := some "any", source := .dispatch }

/-- A place for content.  The attributes are sorted by name. -/
structure Slot where
  name : Text
  description : Option Text := none
  attributes : Option (List (Text × Text)) := none
  deriving DecidableEq, Repr

structure Operation where
  name : Text
  parameters : List Parameter
  result : Text
  description : Text
  deriving Repr

inductive Strategy where
  | tree
  | patterns
  | absent
  deriving DecidableEq, Repr

structure Api where
  metadata : Metadata
  parameters : List Parameter := []
  events : List Event := []
  slots : List Slot := []
  operations : List Operation := []
  description : Option Text := none
  failures : List Failure := []
  warnings : List Text := []
  strategy : Strategy := .absent
  deriving Repr

def Api.isEmpty (api : Api) : Bool :=
  api.parameters.isEmpty && api.events.isEmpty && api.slots.isEmpty && api.operations.isEmpty

structure ScriptApi where
  parameters : List Parameter := []
  events : List Event := []
  operations : List Operation := []
  warnings : List Text := []
  deriving Repr

namespace ScriptApi

def addParameter (api : ScriptApi) (parameter : Parameter) : ScriptApi :=
  { api with parameters := api.parameters ++ [parameter] }

def addEvent (api : ScriptApi) (event : Event) : ScriptApi :=
  { api with events := api.events ++ [event] }

def addOperation (api : ScriptApi) (operation : Operation) : ScriptApi :=
  { api with operations := api.operations ++ [operation] }

def warn (api : ScriptApi) (warning : Text) : ScriptApi :=
  { api with warnings := api.warnings ++ [warning] }

def hasParameter (api : ScriptApi) (name : Text) : Bool :=
  api.parameters.any fun parameter => parameter.name == name

def hasEvent (api : ScriptApi) (name : Text) : Bool :=
  api.events.any fun event => event.name == name

end ScriptApi

def updateFirst (name : Text) (change : Parameter → Parameter) : List Parameter → List Parameter
  | [] => []
  | parameter :: rest =>
      if parameter.name == name then change parameter :: rest
      else parameter :: updateFirst name change rest

def ScriptApi.updateParameter (api : ScriptApi) (name : Text) (change : Parameter → Parameter) :
    ScriptApi :=
  { api with parameters := updateFirst name change api.parameters }

end ComponentDocs.Component
