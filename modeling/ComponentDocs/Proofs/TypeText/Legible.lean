import ComponentDocs.Proofs.TypeText.Formed
import ComponentDocs.Proofs.TypeText.Quotes

/-!
# Types that are read back

What is quoted from a source is checked, and a type whose quoted parts pass the check is written
so that its text is read back.  The proof follows the tree: what binds too loosely for its place
is never written there.
-/

namespace ComponentDocs.Script

def Place.admits : Place → TypeNode → Bool
  | .unit, node | .operand, node => !node.needsParens
  | .meet, node => node.isMeet
  | .type, _ | .result, _ => true

section Places

variable {text : Text} {shape : TypeShape}

theorem ReadsType.at (h : ReadsType text shape) {place : Place}
    (hplace : place = .type ∨ place = .result) : ReadsAt place text shape := by
  rcases hplace with rfl | rfl
  · exact h
  · exact h.result

theorem ReadsPart.at (h : ReadsMeet text shape) {place : Place}
    (hplace : place ≠ .unit ∧ place ≠ .operand) : ReadsAt place text shape := by
  cases place with
  | unit => exact absurd rfl hplace.1
  | operand => exact absurd rfl hplace.2
  | meet => exact h
  | type => exact h.join
  | result => exact h.join.result

theorem ReadsUnit.at (h : ReadsUnit text shape) (place : Place) : ReadsAt place text shape := by
  cases place with
  | unit => exact h
  | operand => exact h.operand
  | meet => exact h.operand.meet
  | type => exact h.operand.meet.join
  | result => exact h.operand.meet.join.result

end Places

/-! ## The check -/

def Parameter.written (source : Text) (parameter : Parameter) : Text × ParameterShape :=
  (parameter.span.normalText source, parameter.shape source)

def ParameterTexts.ofParameters (source : Text) (parameters : List Parameter)
    (rest : Option Parameter) : ParameterTexts where
  plain := parameters.map (Parameter.written source)
  rest := rest.map (Parameter.written source)

def ParameterTexts.areLegible (parameters : ParameterTexts) : Bool :=
  parameters.plain.all (fun parameter => quotesParameter parameter.1 parameter.2) &&
    parameters.rest.all fun parameter => quotesRest parameter.1 parameter.2

/-- What is quoted, or an array of it. -/
def TypeNode.isQuoted : TypeNode → Bool
  | .other _ => true
  | .array element => element.isQuoted
  | _ => false

mutual

/-- What is quoted from the type is read alone as what it is in the source, keys are plain names,
and a type in parentheses begins with neither a pattern nor a parameter. -/
def TypeNode.isLegible (source : Text) : TypeNode → Place → Bool
  | .union parts, _ => TypeNode.areLegible source .meet parts
  | .intersection parts, _ => TypeNode.areLegible source .operand parts
  | .array element, place =>
      if element.isQuoted then
        quotesType place (element.text source ++ "[]") (.array (element.shape source).bare)
      else element.isLegible source .unit
  | .parenthesized inner, _ =>
      inner.isLegible source .type && holdsAlone closers (inner.text source) opensAlone
  | .function _ parameters rest result, _ =>
      (ParameterTexts.ofParameters source parameters rest).areLegible &&
        result.isLegible source .result
  | .object members, _ => Member.areLegible source members
  | .other span, place => quotesType place (span.normalText source) (.quoted (span.tokens source))

def TypeNode.areLegible (source : Text) (place : Place) : List TypeNode → Bool
  | [] => true
  | type :: others => type.isLegible source place && TypeNode.areLegible source place others

def TypeNode.isLegible? (source : Text) (place : Place) : Option TypeNode → Bool
  | none => true
  | some type => type.isLegible source place

def Member.isLegible (source : Text) : Member → Bool
  | .property _ (.static name) _ _ declaredType =>
      Text.isNameText name && TypeNode.isLegible? source .type declaredType
  | .method _ _ (.static name) _ _ parameters rest result =>
      Text.isNameText name && (ParameterTexts.ofParameters source parameters rest).areLegible &&
        TypeNode.isLegible? source .result result
  | .property span .computed _ _ _ | .method span _ .computed _ _ _ _ _ | .other span =>
      quotesMember (quotedMemberText source span) (.quoted (tokensOf (span.memberText source)))

def Member.areLegible (source : Text) : List Member → Bool
  | [] => true
  | member :: others => member.isLegible source && Member.areLegible source others

end

section Lists

variable {source : Text}

def TypeNode.written (source : Text) (type : TypeNode) : Text × TypeShape :=
  (type.text source, (type.shape source).bare)

def Member.written (source : Text) (member : Member) : Text × MemberShape :=
  (member.text source, (member.shape source).bare)

theorem TypeNode.texts_eq (types : List TypeNode) :
    TypeNode.texts source types = (types.map (TypeNode.written source)).map Prod.fst := by
  induction types with
  | nil => rfl
  | cons type others ih => rw [TypeNode.texts, ih]; rfl

theorem TypeNode.shapes_eq (types : List TypeNode) :
    TypeShape.bares (TypeNode.shapes source types) =
      (types.map (TypeNode.written source)).map Prod.snd := by
  induction types with
  | nil => rfl
  | cons type others ih => rw [TypeNode.shapes, TypeShape.bares, ih]; rfl

theorem Member.texts_eq (members : List Member) :
    Member.texts source members = (members.map (Member.written source)).map Prod.fst := by
  induction members with
  | nil => rfl
  | cons member others ih => rw [Member.texts, ih]; rfl

theorem Member.shapes_eq (members : List Member) :
    MemberShape.bares (Member.shapes source members) =
      (members.map (Member.written source)).map Prod.snd := by
  induction members with
  | nil => rfl
  | cons member others ih => rw [Member.shapes, MemberShape.bares, ih]; rfl

theorem Parameter.shapes_eq (parameters : List Parameter) :
    Parameter.shapes source parameters =
      (parameters.map (Parameter.written source)).map Prod.snd := by
  induction parameters with
  | nil => rfl
  | cons parameter others ih => rw [Parameter.shapes, ih]; rfl

theorem Parameter.shape?_eq (parameter : Option Parameter) :
    Parameter.shape? source parameter =
      (parameter.map (Parameter.written source)).map Prod.snd := by
  cases parameter <;> rfl

theorem TypeNode.areLegible_eq (place : Place) (types : List TypeNode) :
    TypeNode.areLegible source place types = types.all (·.isLegible source place) := by
  induction types with
  | nil => rfl
  | cons type others ih => rw [TypeNode.areLegible, ih, List.all_cons]

theorem Member.areLegible_eq (members : List Member) :
    Member.areLegible source members = members.all (·.isLegible source) := by
  induction members with
  | nil => rfl
  | cons member others ih => rw [Member.areLegible, ih, List.all_cons]

theorem parametersText_eq (parameters : List Parameter) (rest : Option Parameter) :
    parametersText source parameters rest =
      grouped (ParameterTexts.ofParameters source parameters rest).text := by
  have htexts :
      (parameters ++ rest.toList).map (fun parameter => parameter.span.normalText source) =
        (ParameterTexts.ofParameters source parameters rest).texts := by
    cases rest <;> simp [ParameterTexts.texts, ParameterTexts.ofParameters, Parameter.written]
  rw [parametersText, htexts]
  rfl

end Lists

section Nodes

variable {source : Text}

theorem TypeShape.bare_joined {join : List TypeShape → TypeShape}
    (hjoin : ∀ parts, (join parts).bare = join (TypeShape.bares parts)) (parts : List TypeShape) :
    (TypeShape.joined join parts).bare = .joined join (TypeShape.bares parts) := by
  match parts with
  | [] => exact hjoin []
  | [one] => rfl
  | first :: second :: others => exact hjoin _

theorem readsType_union {parts : List TypeNode} (hne : parts ≠ [])
    (h : ∀ part ∈ parts, ReadsMeet (part.text source) (part.shape source).bare) :
    ReadsType (TypeNode.text source (.union parts))
      (TypeNode.shape source (.union parts)).bare := by
  obtain ⟨first, others, rfl⟩ := List.exists_cons_of_ne_nil hne
  have hparts : ∀ part ∈ (first :: others).map (TypeNode.written source),
      ReadsMeet part.1 part.2 := by
    simpa [TypeNode.written] using h
  rw [TypeNode.text, TypeNode.shape, TypeShape.bare_joined fun parts => by rw [TypeShape.bare],
    TypeNode.texts_eq, TypeNode.shapes_eq]
  exact (ReadsPart.union hparts).type

theorem readsMeet_intersection {parts : List TypeNode} (hne : parts ≠ [])
    (h : ∀ part ∈ parts, ReadsOperand (part.text source) (part.shape source).bare) :
    ReadsMeet (TypeNode.text source (.intersection parts))
      (TypeNode.shape source (.intersection parts)).bare := by
  obtain ⟨first, others, rfl⟩ := List.exists_cons_of_ne_nil hne
  have hparts : ∀ part ∈ (first :: others).map (TypeNode.written source),
      ReadsOperand part.1 part.2 := by
    simpa [TypeNode.written] using h
  rw [TypeNode.text, TypeNode.shape, TypeShape.bare_joined fun parts => by rw [TypeShape.bare],
    TypeNode.texts_eq, TypeNode.shapes_eq]
  exact ReadsPart.intersection hparts

theorem ParameterTexts.read_of_areLegible {parameters : ParameterTexts}
    (h : parameters.areLegible = true) : parameters.Read := by
  simp only [ParameterTexts.areLegible, Bool.and_eq_true, List.all_eq_true, Option.all_eq_true] at h
  exact ⟨fun parameter hmem => readsParameter_of_quotesParameter (h.1 parameter hmem),
    fun parameter hmem => readsRest_of_quotesRest (h.2 parameter hmem)⟩

theorem readsType_function {parameters : List Parameter} {rest : Option Parameter} {result : Text}
    {shape : TypeShape} (h : (ParameterTexts.ofParameters source parameters rest).areLegible = true)
    (hresult : ReadsResult result shape) :
    ReadsType (arrowText (parametersText source parameters rest) result)
      (.function {} (Parameter.shapes source parameters) (Parameter.shape? source rest) shape) := by
  rw [parametersText_eq, Parameter.shapes_eq, Parameter.shape?_eq]
  exact ReadsType.function (ParameterTexts.read_of_areLegible h) hresult

theorem readsUnit_object {members : List Member}
    (h : ∀ member ∈ members, ReadsMember (member.text source) (member.shape source).bare) :
    ReadsUnit (TypeNode.text source (.object members))
      (TypeNode.shape source (.object members)).bare := by
  have hmembers : ∀ member ∈ members.map (Member.written source),
      ReadsMember member.1 member.2 := by
    simpa [Member.written] using h
  rw [TypeNode.text, TypeNode.shape, TypeShape.bare, Member.texts_eq, Member.shapes_eq]
  exact ReadsUnit.object hmembers

theorem readsMember_static {name : Text} (hname : Text.isNameText name = true)
    (readonly optional : Bool) {type : Text} {shape : TypeShape} (htype : ReadsType type shape) :
    ReadsMember (memberText readonly name optional type)
      (.property readonly name optional shape) :=
  ReadsMember.property ⟨name, hname⟩ readonly optional htype

theorem MemberShape.bare_ofMethod (kind : MethodKind) (name : Text) (optional : Bool)
    (type : TypeShape) :
    (MemberShape.ofMethod kind name optional type).bare =
      .property false name optional type.bare := by
  cases kind <;> rfl

theorem readsAt_unknown : ReadsAt .type unknownType (.quoted (tokensOf unknownType)) :=
  @readsAt_of_quotesType .type _ _ (by decide)

theorem readsAt_noValue : ReadsAt .result noValueType (.quoted (tokensOf noValueType)) :=
  @readsAt_of_quotesType .result _ _ (by decide)

end Nodes

mutual

/-- A type that has been read is read back from its text, wherever the text may stand, if what is
quoted from the source is. -/
theorem TypeNode.readsAt (source : Text) (type : TypeNode) (place : Place)
    (hformed : type.IsFormed) (hplace : place.admits type = true)
    (h : type.isLegible source place = true) :
    ReadsAt place (type.text source) (type.shape source).bare := by
  match type with
  | .union parts =>
      rw [TypeNode.isLegible, TypeNode.areLegible_eq, List.all_eq_true] at h
      refine (readsType_union hformed.1 fun part hpart => ?_).at ?_
      · have hform := TypeNode.areParts_iff.mp hformed.2 part hpart
        exact TypeNode.readsAt source part .meet hform.2 hform.1 (h part hpart)
      · cases place <;> first | contradiction | simp
  | .intersection parts =>
      rw [TypeNode.isLegible, TypeNode.areLegible_eq, List.all_eq_true] at h
      refine (readsMeet_intersection hformed.1 fun part hpart => ?_).at ?_
      · have hform := TypeNode.areParts_iff.mp hformed.2 part hpart
        exact TypeNode.readsAt source part .operand hform.2 hform.1 (h part hpart)
      · cases place <;> first | contradiction | simp
  | .array element =>
      rw [TypeNode.text, TypeNode.shape, TypeShape.bare, hformed.1, if_neg Bool.false_ne_true]
      rw [TypeNode.isLegible] at h
      split at h
      · exact readsAt_of_quotesType h
      · have helement : Place.unit.admits element = true := by simp [Place.admits, hformed.1]
        have hunit : ReadsUnit (element.text source) (element.shape source).bare :=
          TypeNode.readsAt source element .unit hformed.2 helement h
        exact hunit.array.at place
  | .parenthesized inner =>
      rw [TypeNode.isLegible, Bool.and_eq_true] at h
      have hinner : ReadsType (inner.text source) (inner.shape source).bare :=
        TypeNode.readsAt source inner .type hformed rfl h.1
      exact (hinner.group (opens_of_holdsAlone h.2)).at place
  | .function head parameters rest result =>
      rw [TypeNode.isLegible, Bool.and_eq_true] at h
      refine (readsType_function h.1 ?_).at ?_
      · exact TypeNode.readsAt source result .result hformed rfl h.2
      · cases place <;> first | contradiction | simp
  | .object members =>
      rw [TypeNode.isLegible, Member.areLegible_eq, List.all_eq_true] at h
      refine (readsUnit_object fun member hmember => ?_).at place
      exact Member.reads source member (Member.areFormed_iff.mp hformed member hmember)
        (h member hmember)
  | .other span => exact readsAt_of_quotesType h
termination_by sizeOf type

theorem Member.reads (source : Text) (member : Member) (hformed : member.IsFormed)
    (h : member.isLegible source = true) :
    ReadsMember (member.text source) (member.shape source).bare := by
  match member with
  | .property _ (.static name) readonly optional none =>
      rw [Member.isLegible, Bool.and_eq_true] at h
      exact readsMember_static h.1 readonly optional readsAt_unknown
  | .property _ (.static name) readonly optional (some type) =>
      rw [Member.isLegible, Bool.and_eq_true] at h
      exact readsMember_static h.1 readonly optional
        (TypeNode.readsAt source type .type hformed rfl h.2)
  | .method _ kind (.static name) optional head parameters rest none =>
      rw [Member.isLegible, Bool.and_eq_true, Bool.and_eq_true] at h
      rw [Member.shape, MemberShape.bare_ofMethod]
      exact readsMember_static h.1.1 false optional (readsType_function h.1.2 readsAt_noValue)
  | .method _ kind (.static name) optional head parameters rest (some result) =>
      rw [Member.isLegible, Bool.and_eq_true, Bool.and_eq_true] at h
      rw [Member.shape, MemberShape.bare_ofMethod]
      exact readsMember_static h.1.1 false optional
        (readsType_function h.1.2 (TypeNode.readsAt source result .result hformed rfl h.2))
  | .property span .computed _ _ _ | .method span _ .computed _ _ _ _ _ | .other span =>
      exact readsMember_of_quotesMember h
termination_by sizeOf member

end

end ComponentDocs.Script
