import ComponentDocs.Script.Tree

/-!
Which expressions can be assigned to: names and members, and literals of objects
and arrays that read as patterns.
-/

namespace ComponentDocs.Script

def Expr.core : Expr → Expr
  | .parenthesized inner _ | .cast inner _ | .annotated inner _ => inner.core
  | e => e

def Expr.isPlace : Expr → Bool
  | .identifier _ _ | .member _ => true
  | _ => false

def Expr.isSimpleTarget : Expr → Bool
  | .parenthesized inner _ => inner.isSimpleTarget
  | .cast inner _ | .annotated inner _ => inner.core.isPlace
  | e => e.isPlace

mutual

def Expr.isTarget : Expr → Bool
  | .array elements _ => areTargetElements elements
  | .object properties _ => areTargetProperties properties
  | .parenthesized inner _ => inner.isSimpleTarget
  | .cast inner _ | .annotated inner _ => inner.core.isPlace
  | e => e.isPlace

def areTargetElements : List Element → Bool
  | [] => true
  | [.spread argument _] => argument.isTarget
  | .spread _ _ :: _ => false
  | .hole _ :: rest => areTargetElements rest
  | .item (.assignment _) :: rest => areTargetElements rest
  | .item value :: rest => value.isTarget && areTargetElements rest

def areTargetProperties : List Property → Bool
  | [] => true
  | [.spread argument] => argument.isTarget
  | .spread _ :: _ => false
  | .entry _ (.assignment _) plain :: rest => plain && areTargetProperties rest
  | .entry _ value plain :: rest => plain && value.isTarget && areTargetProperties rest

end

mutual

/-- Where the assignments start that become defaults when the expression is read
as a pattern. -/
def Expr.defaultStarts : Expr → List Nat
  | .array elements _ => elementDefaults elements
  | .object properties _ => propertyDefaults properties
  | _ => []

def elementDefaults : List Element → List Nat
  | [] => []
  | .item value :: rest => value.defaultStarts ++ elementDefaults rest
  | .spread argument _ :: rest => argument.defaultStarts ++ elementDefaults rest
  | .hole _ :: rest => elementDefaults rest

def propertyDefaults : List Property → List Nat
  | [] => []
  | .entry _ (.assignment span) _ :: rest => span.start :: propertyDefaults rest
  | .entry _ value _ :: rest => value.defaultStarts ++ propertyDefaults rest
  | .spread argument :: rest => argument.defaultStarts ++ propertyDefaults rest

end

end ComponentDocs.Script
