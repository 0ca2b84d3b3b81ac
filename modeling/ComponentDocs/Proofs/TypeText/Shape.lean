import ComponentDocs.Script.Lexer
import ComponentDocs.Script.TypeText

/-!
# The shapes of types

What remains of a type when its place in the source is forgotten, and with it white space,
comments and separators.  A part that is only ever quoted is the list of its tokens.
-/

namespace ComponentDocs.Script

def tokensFrom : Nat → Text → List Text
  | 0, _ => []
  | fuel + 1, text =>
      let lexed := Lexed.next {} 0 text
      if lexed.token.kind = .endOfSource then []
      else lexed.token.span.text text :: tokensFrom fuel lexed.rest

def tokensOf (text : Text) : List Text :=
  tokensFrom (text.length + 1) text

/-- What a signature says in front of its parameters, token by token. -/
structure HeadShape where
  typeParameters : Option (List Text) := none
  receiver : Option (List Text) := none
  deriving DecidableEq

mutual

inductive TypeShape where
  | union (parts : List TypeShape)
  | intersection (parts : List TypeShape)
  | array (element : TypeShape)
  | parenthesized (inner : TypeShape)
  | function (head : HeadShape) (parameters : List ParameterShape) (rest : Option ParameterShape)
      (result : TypeShape)
  | object (members : List MemberShape)
  | quoted (tokens : List Text)

/-- A parameter, up to places and white space.  A pattern gives it no name. -/
inductive ParameterShape where
  | mk (tokens : List Text) (name : Option Text) (optional : Bool)
      (declaredType : Option TypeShape)

/-- A member of an object type, up to places and white space.  A method is a property of a
function type; an accessor is not. -/
inductive MemberShape where
  | property (readonly : Bool) (name : Text) (optional : Bool) (type : TypeShape)
  | accessor (kind : MethodKind) (name : Text) (optional : Bool) (type : TypeShape)
  | quoted (tokens : List Text)

end

def TypeShape.joined (join : List TypeShape → TypeShape) : List TypeShape → TypeShape
  | [one] => one
  | parts => join parts

def MemberShape.ofMethod (kind : MethodKind) (name : Text) (optional : Bool) (type : TypeShape) :
    MemberShape :=
  match kind with
  | .plain => .property false name optional type
  | .getter | .setter => .accessor kind name optional type

def Binding.name? : Binding → Option Text
  | .name text => some text
  | .object _ | .array => none

def Span.tokens (source : Text) (span : Span) : List Text :=
  tokensOf (span.text source)

def Span.memberText (source : Text) (span : Span) : Text :=
  Text.dropEndWhile (fun c => c == ';' || c == ',') (span.text source)

def SignatureHead.shape (source : Text) (head : SignatureHead) : HeadShape where
  typeParameters := head.typeParameters.map (Span.tokens source)
  receiver := head.receiver.map (Span.tokens source)

mutual

def TypeNode.shape (source : Text) : TypeNode → TypeShape
  | .union parts => .joined .union (TypeNode.shapes source parts)
  | .intersection parts => .joined .intersection (TypeNode.shapes source parts)
  | .array element => .array (element.shape source)
  | .parenthesized inner => .parenthesized (inner.shape source)
  | .function head parameters rest result =>
      .function (head.shape source) (Parameter.shapes source parameters)
        (Parameter.shape? source rest) (result.shape source)
  | .object members => .object (Member.shapes source members)
  | .other span => .quoted (span.tokens source)

def TypeNode.shapes (source : Text) : List TypeNode → List TypeShape
  | [] => []
  | type :: rest => type.shape source :: TypeNode.shapes source rest

def TypeNode.shape? (source : Text) : Option TypeNode → Option TypeShape
  | none => none
  | some type => some (type.shape source)

def Parameter.shape (source : Text) : Parameter → ParameterShape
  | .mk span binding optional declaredType _ =>
      .mk (span.tokens source) binding.name? optional (TypeNode.shape? source declaredType)

def Parameter.shapes (source : Text) : List Parameter → List ParameterShape
  | [] => []
  | parameter :: rest => parameter.shape source :: Parameter.shapes source rest

def Parameter.shape? (source : Text) : Option Parameter → Option ParameterShape
  | none => none
  | some parameter => some (parameter.shape source)

/-- What declares no type is of the type that stands for none.  A separator is no part of a
member. -/
def Member.shape (source : Text) : Member → MemberShape
  | .property _ (.static name) readonly optional declaredType =>
      .property readonly name optional
        ((TypeNode.shape? source declaredType).getD (.quoted (tokensOf unknownType)))
  | .method _ kind (.static name) optional head parameters rest result =>
      .ofMethod kind name optional
        (.function (head.shape source) (Parameter.shapes source parameters)
          (Parameter.shape? source rest)
          ((TypeNode.shape? source result).getD (.quoted (tokensOf noValueType))))
  | .property span .computed _ _ _ | .method span _ .computed _ _ _ _ _ | .other span =>
      .quoted (tokensOf (span.memberText source))

def Member.shapes (source : Text) : List Member → List MemberShape
  | [] => []
  | member :: rest => member.shape source :: Member.shapes source rest

end

mutual

/-- The shape without what no text of the type says: type parameters, the parameter `this` and
that a member is an accessor.  Parameters are quoted and keep all they have. -/
def TypeShape.bare : TypeShape → TypeShape
  | .union parts => .union (TypeShape.bares parts)
  | .intersection parts => .intersection (TypeShape.bares parts)
  | .array element => .array element.bare
  | .parenthesized inner => .parenthesized inner.bare
  | .function _ parameters rest result => .function {} parameters rest result.bare
  | .object members => .object (MemberShape.bares members)
  | .quoted tokens => .quoted tokens

def TypeShape.bares : List TypeShape → List TypeShape
  | [] => []
  | shape :: rest => shape.bare :: TypeShape.bares rest

def MemberShape.bare : MemberShape → MemberShape
  | .property readonly name optional type => .property readonly name optional type.bare
  | .accessor _ name optional type => .property false name optional type.bare
  | .quoted tokens => .quoted tokens

def MemberShape.bares : List MemberShape → List MemberShape
  | [] => []
  | shape :: rest => shape.bare :: MemberShape.bares rest

end

mutual

/-- No function of the shape has type parameters or a parameter `this`, and no member is an
accessor. -/
def TypeShape.isBare : TypeShape → Bool
  | .union parts | .intersection parts => TypeShape.areBare parts
  | .array element => element.isBare
  | .parenthesized inner => inner.isBare
  | .function head _ _ result => head == {} && result.isBare
  | .object members => MemberShape.areBare members
  | .quoted _ => true

def TypeShape.areBare : List TypeShape → Bool
  | [] => true
  | shape :: rest => shape.isBare && TypeShape.areBare rest

def MemberShape.isBare : MemberShape → Bool
  | .property _ _ _ type => type.isBare
  | .accessor _ _ _ _ => false
  | .quoted _ => true

def MemberShape.areBare : List MemberShape → Bool
  | [] => true
  | shape :: rest => shape.isBare && MemberShape.areBare rest

end

mutual

theorem TypeShape.bare_eq_self_iff (shape : TypeShape) :
    shape.bare = shape ↔ shape.isBare = true := by
  match shape with
  | .union parts | .intersection parts =>
      simpa [TypeShape.bare, TypeShape.isBare] using TypeShape.bares_eq_self_iff parts
  | .array shape | .parenthesized shape =>
      simpa [TypeShape.bare, TypeShape.isBare] using TypeShape.bare_eq_self_iff shape
  | .function head parameters rest result =>
      simp [TypeShape.bare, TypeShape.isBare, TypeShape.bare_eq_self_iff result,
        eq_comm (a := head)]
  | .object members =>
      simpa [TypeShape.bare, TypeShape.isBare] using MemberShape.bares_eq_self_iff members
  | .quoted tokens => simp [TypeShape.bare, TypeShape.isBare]
termination_by sizeOf shape

theorem TypeShape.bares_eq_self_iff (shapes : List TypeShape) :
    TypeShape.bares shapes = shapes ↔ TypeShape.areBare shapes = true := by
  match shapes with
  | [] => simp [TypeShape.bares, TypeShape.areBare]
  | shape :: rest =>
      simp [TypeShape.bares, TypeShape.areBare, TypeShape.bare_eq_self_iff shape,
        TypeShape.bares_eq_self_iff rest]
termination_by sizeOf shapes

theorem MemberShape.bare_eq_self_iff (shape : MemberShape) :
    shape.bare = shape ↔ shape.isBare = true := by
  match shape with
  | .property readonly name optional type =>
      simp [MemberShape.bare, MemberShape.isBare, TypeShape.bare_eq_self_iff type]
  | .accessor kind name optional type => simp [MemberShape.bare, MemberShape.isBare]
  | .quoted tokens => simp [MemberShape.bare, MemberShape.isBare]
termination_by sizeOf shape

theorem MemberShape.bares_eq_self_iff (shapes : List MemberShape) :
    MemberShape.bares shapes = shapes ↔ MemberShape.areBare shapes = true := by
  match shapes with
  | [] => simp [MemberShape.bares, MemberShape.areBare]
  | shape :: rest =>
      simp [MemberShape.bares, MemberShape.areBare, MemberShape.bare_eq_self_iff shape,
        MemberShape.bares_eq_self_iff rest]
termination_by sizeOf shapes

end

mutual

def TypeShape.same : TypeShape → TypeShape → Bool
  | .union parts, .union others | .intersection parts, .intersection others =>
      TypeShape.sameAll parts others
  | .array shape, .array other | .parenthesized shape, .parenthesized other => shape.same other
  | .function head parameters rest result, .function head' parameters' rest' result' =>
      head == head' && ParameterShape.sameAll parameters parameters' &&
        ParameterShape.same? rest rest' && result.same result'
  | .object members, .object others => MemberShape.sameAll members others
  | .quoted tokens, .quoted others => tokens == others
  | _, _ => false
termination_by structural shape => shape

def TypeShape.sameAll : List TypeShape → List TypeShape → Bool
  | [], [] => true
  | shape :: rest, other :: others => shape.same other && TypeShape.sameAll rest others
  | _, _ => false
termination_by structural shape => shape

def TypeShape.same? : Option TypeShape → Option TypeShape → Bool
  | none, none => true
  | some shape, some other => shape.same other
  | _, _ => false
termination_by structural shape => shape

def ParameterShape.same : ParameterShape → ParameterShape → Bool
  | .mk tokens name optional declaredType, .mk tokens' name' optional' declaredType' =>
      tokens == tokens' && name == name' && optional == optional' &&
        TypeShape.same? declaredType declaredType'
termination_by structural shape => shape

def ParameterShape.sameAll : List ParameterShape → List ParameterShape → Bool
  | [], [] => true
  | shape :: rest, other :: others => shape.same other && ParameterShape.sameAll rest others
  | _, _ => false
termination_by structural shape => shape

def ParameterShape.same? : Option ParameterShape → Option ParameterShape → Bool
  | none, none => true
  | some shape, some other => shape.same other
  | _, _ => false
termination_by structural shape => shape

def MemberShape.same : MemberShape → MemberShape → Bool
  | .property readonly name optional type, .property readonly' name' optional' type' =>
      readonly == readonly' && name == name' && optional == optional' && type.same type'
  | .accessor kind name optional type, .accessor kind' name' optional' type' =>
      kind == kind' && name == name' && optional == optional' && type.same type'
  | .quoted tokens, .quoted others => tokens == others
  | _, _ => false
termination_by structural shape => shape

def MemberShape.sameAll : List MemberShape → List MemberShape → Bool
  | [], [] => true
  | shape :: rest, other :: others => shape.same other && MemberShape.sameAll rest others
  | _, _ => false
termination_by structural shape => shape

end

mutual

theorem TypeShape.eq_of_same {shape other : TypeShape} (h : shape.same other = true) :
    shape = other := by
  cases shape <;> cases other <;>
    simp only [TypeShape.same, Bool.and_eq_true, beq_iff_eq, Bool.false_eq_true] at h
  case union | intersection => rw [TypeShape.eq_of_sameAll h]
  case array | parenthesized => rw [TypeShape.eq_of_same h]
  case function =>
    rw [h.1.1.1, ParameterShape.eq_of_sameAll h.1.1.2, ParameterShape.eq_of_same? h.1.2,
      TypeShape.eq_of_same h.2]
  case object => rw [MemberShape.eq_of_sameAll h]
  case quoted => rw [h]
termination_by sizeOf shape

theorem TypeShape.eq_of_sameAll {shapes others : List TypeShape}
    (h : TypeShape.sameAll shapes others = true) : shapes = others := by
  cases shapes <;> cases others <;>
    simp only [TypeShape.sameAll, Bool.and_eq_true, Bool.false_eq_true] at h ⊢
  rw [TypeShape.eq_of_same h.1, TypeShape.eq_of_sameAll h.2]
termination_by sizeOf shapes

theorem TypeShape.eq_of_same? {shape other : Option TypeShape}
    (h : TypeShape.same? shape other = true) : shape = other := by
  cases shape <;> cases other <;> simp only [TypeShape.same?, Bool.false_eq_true] at h ⊢
  rw [TypeShape.eq_of_same h]
termination_by sizeOf shape

theorem ParameterShape.eq_of_same {shape other : ParameterShape} (h : shape.same other = true) :
    shape = other := by
  cases shape
  cases other
  simp only [ParameterShape.same, Bool.and_eq_true, beq_iff_eq] at h
  rw [h.1.1.1, h.1.1.2, h.1.2, TypeShape.eq_of_same? h.2]
termination_by sizeOf shape

theorem ParameterShape.eq_of_sameAll {shapes others : List ParameterShape}
    (h : ParameterShape.sameAll shapes others = true) : shapes = others := by
  cases shapes <;> cases others <;>
    simp only [ParameterShape.sameAll, Bool.and_eq_true, Bool.false_eq_true] at h ⊢
  rw [ParameterShape.eq_of_same h.1, ParameterShape.eq_of_sameAll h.2]
termination_by sizeOf shapes

theorem ParameterShape.eq_of_same? {shape other : Option ParameterShape}
    (h : ParameterShape.same? shape other = true) : shape = other := by
  cases shape <;> cases other <;> simp only [ParameterShape.same?, Bool.false_eq_true] at h ⊢
  rw [ParameterShape.eq_of_same h]
termination_by sizeOf shape

theorem MemberShape.eq_of_same {shape other : MemberShape} (h : shape.same other = true) :
    shape = other := by
  cases shape <;> cases other <;>
    simp only [MemberShape.same, Bool.and_eq_true, beq_iff_eq, Bool.false_eq_true] at h
  case property | accessor => rw [h.1.1.1, h.1.1.2, h.1.2, TypeShape.eq_of_same h.2]
  case quoted => rw [h]
termination_by sizeOf shape

theorem MemberShape.eq_of_sameAll {shapes others : List MemberShape}
    (h : MemberShape.sameAll shapes others = true) : shapes = others := by
  cases shapes <;> cases others <;>
    simp only [MemberShape.sameAll, Bool.and_eq_true, Bool.false_eq_true] at h ⊢
  rw [MemberShape.eq_of_same h.1, MemberShape.eq_of_sameAll h.2]
termination_by sizeOf shapes

end

end ComponentDocs.Script
