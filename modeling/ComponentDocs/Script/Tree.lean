import ComponentDocs.Number.Binary64
import ComponentDocs.Script.Token

/-!
The tree of a script, as far as documentation needs it.

Top-level statements are told apart by what they declare.  Expressions and types
that are only ever quoted keep nothing but their span.
-/

namespace ComponentDocs.Script

open Number

inductive Key where
  | static (name : Text)
  | computed
  deriving DecidableEq, Repr, Inhabited

def Key.name? : Key → Option Text
  | .static name => some name
  | .computed => none

mutual

inductive Expr where
  | string (value : Text) (span : Span)
  /-- A numeric literal; no value stands for one beyond the greatest number. -/
  | number (value : Option Binary64) (span : Span)
  | boolean (value : Bool) (span : Span)
  | null (span : Span)
  | template (hasSubstitutions : Bool) (span : Span)
  | identifier (name : Text) (span : Span)
  | array (elements : List Element) (span : Span)
  | object (properties : List Property) (span : Span)
  | parenthesized (inner : Expr) (span : Span)
  | cast (inner : Expr) (span : Span)
  | annotated (inner : Expr) (span : Span)
  | call (callee : Expr) (span : Span)
  | member (span : Span)
  | assignment (span : Span)
  /-- A logical operation; `??` does not mix with the other operators. -/
  | logical (coalesces : Bool) (span : Span)
  | other (span : Span)

inductive Element where
  | item (value : Expr)
  | hole (span : Span)
  | spread (argument : Expr) (span : Span)

inductive Property where
  /-- `isTarget` says that the property may stand in an assignment pattern:
  it is neither a method nor an accessor. -/
  | entry (key : Key) (value : Expr) (isTarget : Bool)
  | spread (argument : Expr)

end

instance : Inhabited Expr := ⟨.null ⟨0, 0⟩⟩

def Expr.span : Expr → Span
  | .string _ span | .number _ span | .boolean _ span | .null span | .template _ span
  | .identifier _ span | .array _ span | .object _ span | .parenthesized _ span
  | .cast _ span | .annotated _ span | .call _ span | .member span | .assignment span
  | .logical _ span | .other span => span

def Element.span : Element → Span
  | .item value => value.span
  | .hole span | .spread _ span => span

structure BindingProperty where
  key : Key
  fallback : Option Expr
  deriving Inhabited

inductive Binding where
  | name (name : Text)
  | object (properties : List BindingProperty)
  | array
  deriving Inhabited

/-- What a signature says in front of its parameters: where its type parameters stand, and
where the parameter `this` stands. -/
structure SignatureHead where
  typeParameters : Option Span := none
  receiver : Option Span := none
  deriving DecidableEq, Repr, Inhabited

inductive MethodKind where
  | plain
  | getter
  | setter
  deriving DecidableEq, Repr, Inhabited

mutual

inductive TypeNode where
  | union (parts : List TypeNode)
  | intersection (parts : List TypeNode)
  | array (element : TypeNode)
  | parenthesized (inner : TypeNode)
  | function (head : SignatureHead) (parameters : List Parameter) (rest : Option Parameter)
      (result : TypeNode)
  | object (members : List Member)
  | other (span : Span)

inductive Parameter where
  | mk (span : Span) (binding : Binding) (optional : Bool) (declaredType : Option TypeNode)
      (fallback : Option Expr)

inductive Member where
  | property (span : Span) (key : Key) (readonly optional : Bool) (declaredType : Option TypeNode)
  | method (span : Span) (kind : MethodKind) (key : Key) (optional : Bool) (head : SignatureHead)
      (parameters : List Parameter) (rest : Option Parameter) (result : Option TypeNode)
  | other (span : Span)

end

instance : Inhabited TypeNode := ⟨.other ⟨0, 0⟩⟩

namespace Parameter

def span : Parameter → Span
  | mk span _ _ _ _ => span

def binding : Parameter → Binding
  | mk _ binding _ _ _ => binding

def optional : Parameter → Bool
  | mk _ _ optional _ _ => optional

def declaredType : Parameter → Option TypeNode
  | mk _ _ _ declaredType _ => declaredType

def fallback : Parameter → Option Expr
  | mk _ _ _ _ fallback => fallback

end Parameter

def Member.span : Member → Span
  | .property span _ _ _ _ | .method span _ _ _ _ _ _ _ | .other span => span

structure Declarator where
  binding : Binding
  bindingSpan : Span
  declaredType : Option TypeNode
  init : Option Expr

structure Signature where
  head : SignatureHead
  parameters : List Parameter
  rest : Option Parameter
  result : Option TypeNode

structure EnumMember where
  span : Span
  name : Option Text
  init : Option Span

structure ImportedName where
  imported : Text
  bound : Text

inductive Form where
  | struct (name : Identifier) (isInterface : Bool) (members : List Member)
  | typeAlias (name : Identifier) (aliased : TypeNode)
  | enumeration (name : Identifier) (members : List EnumMember)
  | bindings (isLet : Bool) (declarators : List Declarator)
  | function (name : Option Text) (signature : Signature)
  | classDefinition (name : Option Text)
  | imports (source : Text) (typeOnly : Bool) (names : List ImportedName)
  | exportList (source : Option Text) (names : List Text)
  | exportAll (source : Text) (name : Option Text)
  | defaultExpression
  | unsupported

/-- A top-level statement.  `declarationSpan` leaves out the words that export it. -/
structure Statement where
  span : Span
  declarationSpan : Span
  exported : Bool := false
  isDefault : Bool := false
  form : Form

/-- A parsed script: its statements, and by position of a token the documentation
comment that leads it. -/
structure Program where
  statements : List Statement
  docs : List (Nat × Text)

def Program.docAt (script : Program) (position : Nat) : Option Text :=
  (script.docs.find? fun (start, _) => start == position).map (·.2)

end ComponentDocs.Script
