import ComponentDocs.Script.Tree

/-!
Types as text on one line.

Unions, intersections, arrays, parentheses, functions and object types are put
together from their parts; everything else is quoted from the source with its
white space normalised.
-/

namespace ComponentDocs.Script

def unknownType : Text := "unknown"

def noValueType : Text := "void"

def Span.normalText (span : Span) (source : Text) : Text :=
  Text.normalize (span.text source)

def parametersText (source : Text) (parameters : List Parameter) (rest : Option Parameter) : Text :=
  "(" ++ Text.join ", "
    ((parameters ++ rest.toList).map fun parameter => parameter.span.normalText source) ++ ")"

def arrowText (parameters result : Text) : Text :=
  parameters ++ " => " ++ result

def memberText (readonly : Bool) (name : Text) (optional : Bool) (type : Text) : Text :=
  (if readonly then ("readonly " : Text) else []) ++ name ++
    (if optional then ("?" : Text) else []) ++ ": " ++ type

def quotedMemberText (source : Text) (span : Span) : Text :=
  Text.normalize (Text.dropEndWhile (fun c => c == ';' || c == ',') (span.text source))

def TypeNode.needsParens : TypeNode → Bool
  | .union _ | .intersection _ | .function _ _ _ _ => true
  | _ => false

def bracedMembers (members : List Text) : Text :=
  if members.isEmpty then "\x7b\x7d" else "\x7b " ++ Text.join "; " members ++ " \x7d"

mutual

def TypeNode.text (source : Text) : TypeNode → Text
  | .union parts => Text.join " | " (TypeNode.texts source parts)
  | .intersection parts => Text.join " & " (TypeNode.texts source parts)
  | .array element =>
      if element.needsParens then "(" ++ element.text source ++ ")[]"
      else element.text source ++ "[]"
  | .parenthesized inner => "(" ++ inner.text source ++ ")"
  | .function _ parameters rest result =>
      arrowText (parametersText source parameters rest) (result.text source)
  | .object members => bracedMembers (Member.texts source members)
  | .other span => span.normalText source

def TypeNode.texts (source : Text) : List TypeNode → List Text
  | [] => []
  | part :: rest => part.text source :: TypeNode.texts source rest

def TypeNode.textOr (source : Text) (absent : Text) : Option TypeNode → Text
  | none => absent
  | some type => type.text source

def Member.text (source : Text) : Member → Text
  | .property _ (.static name) readonly optional declaredType =>
      memberText readonly name optional (TypeNode.textOr source unknownType declaredType)
  | .method _ _ (.static name) optional _ parameters rest result =>
      memberText false name optional
        (arrowText (parametersText source parameters rest)
          (TypeNode.textOr source noValueType result))
  | .property span .computed _ _ _ | .method span _ .computed _ _ _ _ _ | .other span =>
      quotedMemberText source span

def Member.texts (source : Text) : List Member → List Text
  | [] => []
  | member :: rest => member.text source :: Member.texts source rest

end

def Parameter.plainDeclaredType (parameter : Parameter) : Option TypeNode :=
  if parameter.fallback.isSome then none else parameter.declaredType

def firstParameterType (source : Text) (parameters : List Parameter) : Option Text :=
  parameters.head?.bind fun first => first.plainDeclaredType.map (TypeNode.text source)

def TypeNode.payload? (source : Text) : TypeNode → Option Text
  | .parenthesized inner => inner.payload? source
  | .function _ parameters _ _ => firstParameterType source parameters
  | _ => none

structure MemberSignature where
  name : Text
  type : Text
  optional : Bool
  readonly : Bool
  payload : Option Text
  deriving DecidableEq, Repr

/-- A property or method with a static name.  A method counts as a property of a
function type. -/
def Member.signature? (source : Text) : Member → Option MemberSignature
  | .property _ (.static name) readonly optional declaredType =>
      some
        { name, optional, readonly
          type := TypeNode.textOr source unknownType declaredType
          payload := declaredType.bind (TypeNode.payload? source) }
  | .method _ _ (.static name) optional _ parameters rest result =>
      some
        { name, optional, readonly := false
          type := arrowText (parametersText source parameters rest)
            (TypeNode.textOr source noValueType result)
          payload := firstParameterType source parameters }
  | .property _ .computed _ _ _ | .method _ _ .computed _ _ _ _ _ | .other _ => none

end ComponentDocs.Script
