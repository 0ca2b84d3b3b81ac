import ComponentDocs.Options
import ComponentDocs.Toml.Value

/-!
Settings from several layers, and the options they make.
-/

namespace ComponentDocs

inductive Setting where
  | text (value : Text)
  | integer (value : Int)
  | flag (value : Bool)
  | other
  deriving DecidableEq, Repr

abbrev Settings := List (Text × Setting)

namespace Setting

def ofValue : Toml.Value → Setting
  | .text value => .text value
  | .integer value => .integer value
  | .flag value => .flag value
  | .fraction _ | .date _ | .list _ | .table _ => .other

def text? : Setting → Option Text
  | .text value => some value
  | _ => none

def natural? : Setting → Option Nat
  | .integer value => if 0 ≤ value && value < Int.pow 2 64 then some value.toNat else none
  | _ => none

def flag? : Setting → Option Bool
  | .flag value => some value
  | _ => none

end Setting

def Settings.find? (settings : Settings) (name : Text) : Option Setting :=
  settings.reverse.lookup name

/-- The value of an option, or its default if it is not set.  There is none if the
setting is of the wrong kind. -/
def Settings.value? {α : Type} (settings : Settings) (name : Text) (absent : α)
    (decode : Setting → Option α) : Option α :=
  match settings.find? name with
  | none => some absent
  | some setting => decode setting

def Options.ofSettings? (settings : Settings) : Option Options := do
  let absent : Options := {}
  let propsTypeName ← settings.value? "props_type_name" absent.propsTypeName Setting.text?
  let propsRune ← settings.value? "props_rune" absent.propsRune Setting.text?
  let eventPrefix ← settings.value? "event_prefix" absent.eventPrefix Setting.text?
  let dispatchFunction ← settings.value? "dispatch_function" absent.dispatchFunction Setting.text?
  let timeoutMillis ← settings.value? "analysis_timeout_ms" absent.timeoutMillis Setting.natural?
  let resolveTypes ← settings.value? "resolve_parameter_types" absent.resolveTypes Setting.flag?
  return { propsTypeName, propsRune, eventPrefix, dispatchFunction, timeoutMillis, resolveTypes }

end ComponentDocs
