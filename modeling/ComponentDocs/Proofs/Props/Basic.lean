import ComponentDocs.Component.FromTree
import ComponentDocs.Proofs.Script.Lexemes

/-!
# Scripts that take apart properties

A props script declares a type `Props` of properties and takes apart the properties that
the component is given.  `Script.text` is how it is written, and `Script.api` what it
declares.
-/

namespace ComponentDocs.Props

open ComponentDocs.Script (Name Quoted Digits)

mutual

inductive TypeUnit where
  | name (name : Name)
  | literal (literal : Quoted)
  | generic (name : Name) (argument : TypeExpr)
  | group (inner : TypeExpr)

/-- One type or more with bars between them.  `rank` is the number of brackets behind a
type. -/
inductive TypeExpr where
  | single (unit : TypeUnit) (rank : Nat)
  | union (unit : TypeUnit) (rank : Nat) (others : TypeExpr)

end

def brackets (rank : Nat) : Text :=
  (List.replicate rank "[]".toList).flatten

mutual

def TypeUnit.text : TypeUnit → Text
  | .name name => name.text
  | .literal literal => literal.text
  | .generic name argument => name.text ++ "<" ++ argument.text ++ ">"
  | .group inner => "(" ++ inner.text ++ ")"

def TypeExpr.text : TypeExpr → Text
  | .single unit rank => unit.text ++ brackets rank
  | .union unit rank others => unit.text ++ brackets rank ++ " | " ++ others.text

end

structure Member where
  name : Name
  optional : Bool
  type : TypeExpr

def Member.text (member : Member) : Text :=
  member.name.text ++ (if member.optional then ("?" : Text) else []) ++ ": " ++ member.type.text

inductive Default where
  | boolean (value : Bool)
  | null
  | integer (negative : Bool) (digits : Digits)
  | string (quoted : Quoted)

def Default.text : Default → Text
  | .boolean true => "true"
  | .boolean false => "false"
  | .null => "null"
  | .integer negative digits => (if negative then ("-" : Text) else []) ++ digits.text
  | .string quoted => quoted.text

structure Binding where
  name : Name
  fallback : Option Default

def Binding.text (binding : Binding) : Text :=
  match binding.fallback with
  | none => binding.name.text
  | some fallback => binding.name.text ++ " = " ++ fallback.text

structure Script where
  members : List Member
  bindings : List Binding

def Script.text (script : Script) : Text :=
  "interface Props \x7b" ++ Text.join ";" (script.members.map fun member => " " ++ member.text) ++
    " \x7d\nlet \x7b" ++
    Text.join "," (script.bindings.map fun binding => " " ++ binding.text) ++
    " \x7d: Props = $props();"

open ComponentDocs.Component (ScriptApi eventName? numberValue)

def Default.value : Default → Json
  | .boolean value => .bool value
  | .null => .null
  | .integer negative digits =>
      numberValue (Number.readDecimal? ((if negative then ("-" : Text) else []) ++ digits.text))
  | .string quoted => .string quoted.inner

def Member.declare (api : ScriptApi) (member : Member) : ScriptApi :=
  match eventName? ({} : Options).eventPrefix member.name.text with
  | some event => api.addEvent { name := event, type := member.type.text, source := .callback }
  | none =>
      api.addParameter
        { name := member.name.text, type := member.type.text, required := !member.optional }

def Binding.declare (api : ScriptApi) (binding : Binding) : ScriptApi :=
  api.addDestructured {} binding.name.text (binding.fallback.map Default.value)

def Script.api (script : Script) : ScriptApi :=
  script.bindings.foldl Binding.declare (script.members.foldl Member.declare {})

end ComponentDocs.Props
