import ComponentDocs.Proofs.TypeText.Tracks

/-!
# The grammar of types in two places

Every reader of the grammar of types tracks itself.  Most of them are put together from readers
that do, and instances find the proof.  What looks beyond the next token is looked at by hand: it
does so only where the text goes on.
-/

namespace ComponentDocs.Script

open ComponentDocs.Script.Parser

class Grammar.IsStable (g : Grammar) : Prop where
  assignment : ∀ arrow, Stable (g.assignment arrow)
  leftHandSide : Stable g.leftHandSide
  type : Stable g.type
  typeOperand : Stable g.typeOperand
  binding : Stable g.binding

attribute [instance] Grammar.IsStable.assignment Grammar.IsStable.leftHandSide
  Grammar.IsStable.type Grammar.IsStable.typeOperand Grammar.IsStable.binding

namespace Parser.Stable

set_option synthInstance.maxSize 1000000

variable (g : Grammar) [g.IsStable]

instance : Stable flaw := inferInstanceAs (Stable (flawIf true))

instance (word : Keyword) : Stable (atModifier word) :=
  ⟨fun h => (yields_of_eq (atModifier_apply word _ _)).mpr h⟩

theorem step {α β : Type} {reader : Parser β} {next : β → Parser α} [Stable reader]
    (h : ∀ value, Stable (next value)) : Stable (reader >>= next) :=
  inferInstance

instance : Stable modifierItem := step fun token => by split <;> infer_instance
instance : Stable modifiers := by unfold modifiers; infer_instance
instance (word : Keyword) : Stable (eatModifier word) := by unfold eatModifier; infer_instance
instance : Stable g.valueWithIn := by unfold Grammar.valueWithIn Grammar.value; infer_instance
instance : Stable g.value := by unfold Grammar.value; infer_instance
instance : Stable (propertyKey g) := by
  unfold propertyKey computedKey
  exact step fun token => by split <;> infer_instance
instance : Stable (typeArguments g) := by unfold typeArguments; infer_instance
instance : Stable (optionalTypeArguments g) := by unfold optionalTypeArguments; infer_instance
instance : Stable typeParameterModifier := by unfold typeParameterModifier; infer_instance
instance : Stable (typeParameter g) := by unfold typeParameter; infer_instance
instance : Stable (typeParameters g) := by unfold typeParameters; infer_instance
instance : Stable (declaredType? g) := by unfold declaredType?; infer_instance
instance : Stable predicateSubject := by unfold predicateSubject; infer_instance
instance : Stable (resultType g) := by unfold resultType; infer_instance
instance : Stable (result? g) := by unfold result?; infer_instance
instance : Stable atReceiver := by unfold atReceiver; infer_instance
instance : Stable (receiver g) := by unfold receiver; infer_instance
instance : Stable (decorators g) := by unfold decorators; infer_instance
instance : Stable (parameter g) := by unfold parameter; infer_instance
instance : Stable (restParameter g) := by unfold restParameter; infer_instance
instance : Stable (parameters g) := by unfold parameters; infer_instance
instance : Stable endMember := by unfold endMember; infer_instance
instance : Stable atIndexSignature := by unfold atIndexSignature; infer_instance
instance : Stable (indexSignature g) := by unfold indexSignature; infer_instance
instance (constructs : Bool) : Stable (signature g constructs) := by
  unfold signature; infer_instance
instance (getter : Bool) : Stable (accessorMember g getter) := by
  unfold accessorMember; infer_instance
instance (readonly : Bool) : Stable (keyedMember g readonly) := by
  unfold keyedMember; infer_instance
instance : Stable (bareMember g) := by unfold bareMember; infer_instance
instance : Stable (typeMember g) := by unfold typeMember; infer_instance
instance : Stable (typeMembers g) := by unfold typeMembers; infer_instance
instance : Stable qualifiedName := by unfold qualifiedName; infer_instance
instance : Stable (typeReference g) := by unfold typeReference; infer_instance
instance : Stable (importOptions g) := by unfold importOptions; infer_instance
instance : Stable (importedType g) := by unfold importedType; infer_instance
instance : Stable (queriedType g) := by unfold queriedType; infer_instance
instance : Stable (tupleElement g) := by unfold tupleElement atTupleLabel; infer_instance
instance : Stable (tupleType g) := by unfold tupleType; infer_instance
instance : Stable mappedReadonly := by unfold mappedReadonly; infer_instance
instance : Stable mappedOptional := by unfold mappedOptional; infer_instance
instance : Stable (mappedType g) := by unfold mappedType; infer_instance
instance : Stable (parenthesizedType g) := by unfold parenthesizedType; infer_instance
instance : Stable tokenType := by unfold tokenType; infer_instance
instance : Stable (thisType g) := by unfold thisType; infer_instance
instance : Stable (assertedType g) := by unfold assertedType; infer_instance
instance : Stable negativeType := by unfold negativeType; infer_instance
instance : Stable rescanTemplate := ⟨fun h => by simp [rescanTemplate, Token.is, h.kind_eq]⟩
instance (raw : Bool) (inner : Parser Unit) [Stable inner] : Stable (substitutions raw inner) := by
  have hitem : Stable (do
      match (← token).kind with
      | .templateTail => return none
      | .templateMiddle => advance
      | _ => pure ()
      inner
      rescanTemplate
      flawIf (!raw && !(← token).sound)
      return some ()) := step fun token => by split <;> infer_instance
  unfold substitutions
  infer_instance
instance : Stable (templateType g) := by unfold templateType; infer_instance
instance : Stable (simpleType g) := step fun token => by
  unfold atMappedType
  split <;> infer_instance
instance (start : Nat) (type : TypeNode) : Stable (typeSuffix g start type) := by
  unfold typeSuffix
  exact step fun token => by split <;> [infer_instance; (split <;> infer_instance)]
instance : Stable (inferredType g) := by unfold inferredType; infer_instance
instance : Stable (typeOperand g) := step fun start => step fun token => by
  split <;> infer_instance
instance (mark : Punctuator) (join : List TypeNode → TypeNode) (part : Parser TypeNode)
    [Stable part] : Stable (joinedTypes mark join part) := by unfold joinedTypes; infer_instance
instance : Stable (unionType g) := by unfold unionType; infer_instance
instance : Stable (atFunctionType g) := by
  unfold atFunctionType atFunctionParameters; infer_instance
instance : Stable (functionType g) := by unfold functionType; infer_instance
instance (start : Nat) : Stable (conditionalType g start) := by
  unfold conditionalType; infer_instance
instance : Stable (anyType g) := by unfold anyType; infer_instance

end Parser.Stable

class Grammar.IsTracked (g : Grammar) (twins : Twins) (g' : Grammar) : Prop where
  assignment : ∀ arrow, Tracks twins (g.assignment arrow) (g'.assignment arrow)
  leftHandSide : Tracks twins g.leftHandSide g'.leftHandSide
  type : Tracks twins g.type g'.type
  typeOperand : Tracks twins g.typeOperand g'.typeOperand
  binding : Tracks twins g.binding g'.binding

theorem Parser.reaches_rescanLess_plain (context : Context) {cursor : Cursor}
    (h : cursor.token.kind.isPlain = true) :
    Reaches rescanLess context cursor fun _ moved => moved = cursor := by
  simp only [rescanLess, reaches_bind, reaches_get]
  split
  case h_4 => simp
  all_goals simp_all [TokenKind.isPlain]

namespace Tracks

set_option synthInstance.maxSize 1000000

variable {twins : Twins} {g g' : Grammar} [g.IsStable] [h : g.IsTracked twins g']

instance (arrow : Bool) : Tracks twins (g.assignment arrow) (g'.assignment arrow) :=
  h.assignment arrow
instance : Tracks twins g.leftHandSide g'.leftHandSide := h.leftHandSide
instance : Tracks twins g.type g'.type := h.type
instance : Tracks twins g.typeOperand g'.typeOperand := h.typeOperand
instance : Tracks twins g.binding g'.binding := h.binding

instance : Fact (Punctuator.openBrace ∉ stopMarks) := ⟨by decide⟩
instance : Fact (Punctuator.openBracket ∉ stopMarks) := ⟨by decide⟩
instance : Fact (Punctuator.question ∉ stopMarks) := ⟨by decide⟩
instance : Fact (Punctuator.plus ∉ stopMarks) := ⟨by decide⟩
instance : Fact (Punctuator.minus ∉ stopMarks) := ⟨by decide⟩
instance : Fact (Punctuator.ellipsis ∉ stopMarks) := ⟨by decide⟩

instance : Tracks twins flaw flaw := inferInstanceAs (Tracks twins (flawIf true) (flawIf true))
instance : Tracks twins g.value g'.value := by unfold Grammar.value; infer_instance
instance : Tracks twins g.valueWithIn g'.valueWithIn := by
  unfold Grammar.valueWithIn; infer_instance

instance : Tracks twins rescanLess rescanLess where
  tracksAt {context within _ _} _ hmirrors := by
    have hplain := hmirrors.kind_isPlain
    have hplain' := hmirrors.same_token.kind_eq ▸ hplain
    obtain ⟨_, _, hrun, rfl⟩ := reaches_rescanLess_plain context hplain
    obtain ⟨_, _, hrun', rfl⟩ := reaches_rescanLess_plain within hplain'
    rw [TracksAt, yields_of_eq hrun, reaches_of_eq hrun']
    exact .inr ⟨⟨trivial⟩, hmirrors⟩

instance {token token' : Token} [h : Same twins token token'] :
    Same twins (followsModifier token) (followsModifier token') := by
  have hkey : Same twins (startsKey token) (startsKey token') :=
    .of_eq (by simp only [startsKey, h.kind_eq])
  unfold followsModifier
  infer_instance

instance {token token' : Token} [Same twins token token'] (word : Keyword) :
    Same twins (modifies word token) (modifies word token') := by
  unfold modifies
  split <;> infer_instance

instance : Tracks twins modifierItem modifierItem := by
  refine ⟨fun {context within cursor copy} hcontext hmirrors => ?_⟩
  have hsame := hmirrors.same_token
  refine .peek (fun _ _ => rfl) ?_
  rw [hsame.kind_eq, hsame.alike.escaped_eq]
  split
  · next word hkind =>
      have hinner : cursor.token.IsInner := Token.isInner_of_isWord (by simp [isWord, hkind])
      have hnext := (hmirrors.advance_inner hinner).same_token
      exact .peek (atModifier_apply word) (Tracks.tracksAt hcontext hmirrors)
  · exact Tracks.tracksAt hcontext hmirrors

instance : Tracks twins modifiers modifiers := by unfold modifiers; infer_instance

instance (word : Keyword) : Tracks twins (eatModifier word) (eatModifier word) := by
  refine ⟨fun {context within cursor copy} hcontext hmirrors => ?_⟩
  have hsame := hmirrors.same_token
  have hnext := hmirrors.same_next (·.isKeyword word) (modifies word) Token.isInner_of_isKeyword
  exact .peek (fun _ _ => rfl) (.peek (atModifier_apply word) (Tracks.tracksAt hcontext hmirrors))

instance : Tracks twins (propertyKey g) (propertyKey g') := by
  refine ⟨fun {context within cursor copy} hcontext hmirrors => ?_⟩
  have hsame := hmirrors.same_token
  unfold propertyKey computedKey
  refine .peek (fun _ _ => rfl) ?_
  rw [hsame.kind_eq, hsame.alike.text_eq]
  split <;> exact Tracks.tracksAt hcontext hmirrors

instance : Tracks twins (typeArguments g) (typeArguments g') := by
  unfold typeArguments; infer_instance
instance : Tracks twins (optionalTypeArguments g) (optionalTypeArguments g') := by
  unfold optionalTypeArguments; infer_instance
instance : Tracks twins typeParameterModifier typeParameterModifier := by
  refine ⟨fun {context within cursor copy} hcontext hmirrors => ?_⟩
  have hsame := hmirrors.same_token
  have hnext := hmirrors.same_next
    (fun token => token.isKeyword .inWord || token.isKeyword .outWord) isWord fun token h =>
      (Bool.or_eq_true _ _ ▸ h).elim token.isInner_of_isKeyword token.isInner_of_isKeyword
  refine .peek (fun _ _ => rfl) (.ite inferInstance
    (fun _ => Tracks.tracksAt hcontext hmirrors) fun _ => ?_)
  exact .peek (fun _ _ => rfl) (.peek (fun _ _ => rfl) (.peek (fun _ _ => rfl)
    (Tracks.tracksAt hcontext hmirrors)))

instance : Tracks twins (typeParameter g) (typeParameter g') := by
  unfold typeParameter; infer_instance
instance : Tracks twins (typeParameters g) (typeParameters g') := by
  unfold typeParameters; infer_instance
instance : Tracks twins (declaredType? g) (declaredType? g') := by
  unfold declaredType?; infer_instance
instance : Matches twins predicateSubject predicateSubject := by
  unfold predicateSubject; infer_instance
instance : Tracks twins (resultType g) (resultType g') := by unfold resultType; infer_instance
instance : Tracks twins (result? g) (result? g') := by unfold result?; infer_instance
instance : Tracks twins atReceiver atReceiver := by
  refine ⟨fun {context within cursor copy} hcontext hmirrors => ?_⟩
  have hsame := hmirrors.same_token
  have hallowed : Same twins context within := ⟨hcontext⟩
  have hnext := hmirrors.same_next (·.is .openParen) (·.isKeyword .thisWord)
    fun _ h => Token.isInner_of_is h (by decide)
  refine .peek (fun _ _ => rfl) (.peek (fun _ _ => rfl) (.peek (fun _ _ => rfl) ?_))
  simp only [Bool.and_assoc]
  exact Tracks.tracksAt hcontext hmirrors
instance : Tracks twins (receiver g) (receiver g') := by unfold receiver; infer_instance
instance : Tracks twins (decorators g) (decorators g') := by unfold decorators; infer_instance
instance : Tracks twins (parameter g) (parameter g') := by unfold parameter; infer_instance
instance : Tracks twins (restParameter g) (restParameter g') := by
  unfold restParameter; infer_instance
instance : Tracks twins (parameters g) (parameters g') := by unfold parameters; infer_instance
instance : Tracks twins endMember endMember := by unfold endMember; infer_instance
instance : Matches twins atIndexKey atIndexKey where
  matchesAt {context within cursor copy} hcontext hmirrors := by
    have hsame := hmirrors.same_token
    have hmodifies : Same twins (modifiesName cursor.token cursor.advance.token)
        (modifiesName copy.token copy.advance.token) := by
      unfold modifiesName
      rw [hsame.kind_eq]
      split
      · next word hkind =>
          have hinner : cursor.token.IsInner := Token.isInner_of_isWord (by simp [isWord, hkind])
          have := (hmirrors.advance_inner hinner).same_token
          infer_instance
      · infer_instance
    refine .peek (fun _ _ => rfl) (.peek (fun _ _ => rfl) (.ite inferInstance
      (fun _ => Matches.matchesAt hcontext hmirrors) fun _ => ?_))
    refine .ite inferInstance (fun _ => Matches.matchesAt hcontext hmirrors) fun hname => ?_
    refine .advance hcontext hmirrors (Token.isInner_of_isWord (isWord_of_plain ?_))
    rw [Bool.not_eq_false'] at hname
    simp [hname]

instance : Matches twins atIndexSignature atIndexSignature where
  matchesAt {context within cursor copy} hcontext hmirrors := by
    have hsame := hmirrors.same_token
    refine .peek (fun _ _ => rfl) (.ite inferInstance
      (fun _ => Matches.matchesAt hcontext hmirrors) fun hmark => .isAhead hmirrors ?_)
    rw [Bool.not_eq_false'] at hmark
    exact .advance hcontext hmirrors (Token.isInner_of_is hmark (by decide))
instance : Tracks twins (indexSignature g) (indexSignature g') := by
  unfold indexSignature; infer_instance
instance (constructs : Bool) : Tracks twins (signature g constructs) (signature g' constructs) := by
  refine step fun _ => step fun _ => step fun _ => step fun ⟨⟨_, _, _⟩, ⟨_, _, _⟩, hread⟩ => ?_
  obtain ⟨hreceiver, hread⟩ := hread.of_mk
  obtain ⟨hparameters, hrest⟩ := hread.of_mk
  infer_instance

instance (getter : Bool) : Tracks twins (accessorMember g getter) (accessorMember g' getter) := by
  unfold accessorMember; infer_instance
instance {readonly readonly' : Bool} [Same twins readonly readonly'] :
    Tracks twins (keyedMember g readonly) (keyedMember g' readonly') := by
  unfold keyedMember; infer_instance
instance : Tracks twins (bareMember g) (bareMember g') := by
  refine ⟨fun {context within cursor copy} hcontext hmirrors => ?_⟩
  have hsame := hmirrors.same_token
  have hnext := hmirrors.same_next (·.isKeyword .newWord)
    (fun next => next.is .openParen || next.is .less) Token.isInner_of_isKeyword
  refine .peek (fun _ _ => rfl) (.peek (fun _ _ => rfl) (.ite inferInstance
    (fun _ => Tracks.tracksAt hcontext hmirrors) fun _ => ?_))
  exact .peek (fun _ _ => rfl) (.peek (fun _ _ => rfl) (Tracks.tracksAt hcontext hmirrors))
instance : Tracks twins (typeMember g) (typeMember g') :=
  step fun _ => step fun build => step fun _ => step fun span =>
    have : Same twins (build.value span.value) (build.result span.result) :=
      ⟨build.same.alike _ _ (congrArg _ span.same.alike)⟩
    inferInstance
instance : Tracks twins (typeMembers g) (typeMembers g') := by unfold typeMembers; infer_instance
instance : Tracks twins qualifiedName qualifiedName := by unfold qualifiedName; infer_instance
instance : Tracks twins (typeReference g) (typeReference g') := by
  unfold typeReference; infer_instance
instance : Tracks twins (importOptions g) (importOptions g') := by
  unfold importOptions; infer_instance
instance : Tracks twins (importedType g) (importedType g') := by
  unfold importedType; infer_instance
instance : Matches twins atTupleLabel atTupleLabel := by unfold atTupleLabel; infer_instance
instance : Tracks twins (tupleElement g) (tupleElement g') := by
  unfold tupleElement; infer_instance
instance : Tracks twins (tupleType g) (tupleType g') := by unfold tupleType; infer_instance
instance : Matches twins atMappedType atMappedType := by unfold atMappedType; infer_instance
instance : Tracks twins mappedReadonly mappedReadonly := by unfold mappedReadonly; infer_instance
instance : Tracks twins mappedOptional mappedOptional := by unfold mappedOptional; infer_instance
instance : Tracks twins (mappedType g) (mappedType g') := by unfold mappedType; infer_instance
instance : Tracks twins (parenthesizedType g) (parenthesizedType g') := by
  unfold parenthesizedType; infer_instance
instance : Tracks twins negativeType negativeType := by unfold negativeType; infer_instance
instance : Tracks twins tokenType tokenType := by unfold tokenType; infer_instance
instance : Tracks twins (thisType g) (thisType g') := by unfold thisType; infer_instance
instance : Tracks twins (assertedType g) (assertedType g') := by
  unfold assertedType; infer_instance
theorem queriedType {context within : Context} {cursor copy : Cursor}
    (hcontext : context.Agrees within) (hmirrors : twins.Mirrors cursor copy)
    (hinner : cursor.token.IsInner) :
    TracksAt twins (Parser.queriedType g) (Parser.queriedType g') context within cursor copy := by
  have hstart := hmirrors.same_start
  have hnext := (hmirrors.advance_inner hinner).same_token
  exact .peek (fun _ _ => rfl) (.peek (fun _ _ => rfl) (Tracks.tracksAt hcontext hmirrors))

instance : Tracks twins (simpleType g) (simpleType g') := by
  refine ⟨fun {context within cursor copy} hcontext hmirrors => ?_⟩
  have hsame := hmirrors.same_token
  have hplain := hmirrors.kind_isPlain
  have hnext : isWord cursor.token = true → Same twins cursor.advance.token copy.advance.token :=
    fun hword => (hmirrors.advance_inner (Token.isInner_of_isWord hword)).same_token
  refine .peek (fun _ _ => rfl) ?_
  rw [hsame.kind_eq]
  split
  case h_10 hkind | h_11 hkind =>
    rw [hkind] at hplain
    contradiction
  case h_13 hkind =>
    exact queriedType hcontext hmirrors (Token.isInner_of_isWord (by simp [isWord, hkind]))
  case h_19 hkind =>
    have := hnext (by simp [isWord, hkind])
    exact .peek (fun _ _ => rfl) (Tracks.tracksAt hcontext hmirrors)
  case h_20 hkind =>
    have := hnext (by simp [isWord, hkind])
    exact .peek (fun _ _ => rfl) (Tracks.tracksAt hcontext hmirrors)
  all_goals exact Tracks.tracksAt hcontext hmirrors

instance {start start' : Nat} [Same twins start start'] {type type' : TypeNode}
    [Same twins type type'] :
    Tracks twins (typeSuffix g start type) (typeSuffix g' start' type') := by
  refine ⟨fun {context within cursor copy} hcontext hmirrors => ?_⟩
  have hsame := hmirrors.same_token
  refine .peek (fun _ _ => rfl) (.ite inferInstance
    (fun _ => Tracks.tracksAt hcontext hmirrors) fun _ => ?_)
  rw [hsame.kind_eq]
  split
  case h_2 hkind =>
    have hquestion : cursor.token.is .question = true := by simp [Token.is, hkind]
    have hinner := Token.isInner_of_is hquestion (by decide)
    have hnext := (hmirrors.advance_inner hinner).same_token
    exact .peek (fun _ _ => rfl) (Tracks.tracksAt hcontext hmirrors)
  all_goals exact Tracks.tracksAt hcontext hmirrors

instance : Tracks twins (typeOperand g) (typeOperand g') := by
  refine ⟨fun {context within cursor copy} hcontext hmirrors => ?_⟩
  have hsame := hmirrors.same_token
  have hstart := hmirrors.same_start
  have hplain := hmirrors.kind_isPlain
  refine .peek (fun _ _ => rfl) (.peek (fun _ _ => rfl) ?_)
  rw [hsame.kind_eq]
  split
  case h_4 hkind =>
    rw [hkind] at hplain
    contradiction
  all_goals exact Tracks.tracksAt hcontext hmirrors

theorem joinedTypes {mark : Punctuator} {join : List TypeNode → TypeNode}
    {part part' : Parser TypeNode} [Stable part] [Tracks twins part part']
    (hjoin : ∀ {types types' : List TypeNode} [Same twins types types'],
      Same twins (join types) (join types')) :
    Tracks twins (Parser.joinedTypes mark join part) (Parser.joinedTypes mark join part') := by
  unfold Parser.joinedTypes
  infer_instance

instance : Tracks twins (unionType g) (unionType g') := by
  have hpart : Tracks twins (Parser.joinedTypes .ampersand .intersection g.typeOperand)
      (Parser.joinedTypes .ampersand .intersection g'.typeOperand) := joinedTypes inferInstance
  exact joinedTypes inferInstance

omit [g.IsStable] h in
theorem functionParameters {context within : Context} {cursor copy : Cursor}
    (hcontext : context.Agrees within) (hmirrors : twins.Mirrors cursor copy)
    (hopen : cursor.token.is .openParen = true) :
    MatchesAt twins (atFunctionParameters g) (atFunctionParameters g') context within cursor
      copy := by
  have hopen' : copy.token.is .openParen = true := by
    rw [Token.is, hmirrors.same_token.kind_eq]
    exact hopen
  obtain ⟨first, second, more, hplain, hnext⟩ : ∃ first second more,
      cursor.advance.token.kind.opensPlainly = true ∧
        twins.Mirror (first :: second :: more) cursor.advance copy.advance := by
    obtain ⟨scraps, hmirror⟩ := hmirrors
    exact hmirror.openParen hopen
  refine .isAhead hmirrors (.run (expect_apply hopen) (expect_apply hopen') ?_)
  have hmirrors : twins.Mirrors cursor.advance copy.advance := ⟨_, hnext⟩
  have hsame := hmirrors.same_token
  refine .peek (fun _ _ => rfl) (.peek (fun _ _ => rfl) (.ite inferInstance
    (fun _ => Matches.matchesAt hcontext hmirrors) fun _ => ?_))
  have hmirrors' : twins.Mirrors cursor.advance.advance copy.advance.advance := ⟨_, hnext.tail⟩
  have hsame' := hmirrors'.same_token
  refine .skip inferInstance
    (skipParameterStart_apply g hcontext.pos hplain)
    (skipParameterStart_apply g' (hcontext.pos.trans_le hcontext.le) (hsame.kind_eq ▸ hplain)) ?_ ?_
  case refine_2 =>
    have hfalse : Matches twins (pure false : Parser Bool) (pure false) := inferInstance
    exact hfalse.matchesAt hcontext hmirrors
  rw [if_pos rfl]
  refine .peek (fun _ _ => rfl) (.peek (fun _ _ => rfl) (.peek (fun _ _ => rfl)
    (.peek (fun _ _ => rfl) (.ite inferInstance
      (fun _ => Matches.matchesAt hcontext hmirrors') fun _ => ?_))))
  exact .skip inferInstance (eat_apply _) (eat_apply _)
    (Matches.matchesAt hcontext ⟨_, hnext.tail.tail⟩) (Matches.matchesAt hcontext hmirrors')

omit [g.IsStable] h in
instance : Matches twins (atFunctionType g) (atFunctionType g') := by
  refine ⟨fun {context within cursor copy} hcontext hmirrors => ?_⟩
  have hsame := hmirrors.same_token
  have hnext := hmirrors.same_next (·.isKeyword .abstractWord) (·.isKeyword .newWord)
    Token.isInner_of_isKeyword
  refine .peek (fun _ _ => rfl) (.ite inferInstance
    (fun _ => Matches.matchesAt hcontext hmirrors) fun _ => ?_)
  refine .ite inferInstance (functionParameters hcontext hmirrors) fun _ => ?_
  exact .peek (fun _ _ => rfl) (Matches.matchesAt hcontext hmirrors)

instance : Tracks twins (functionType g) (functionType g') := by
  refine step fun _ => step fun _ => step fun _ => step fun _ => step fun _ => step fun _ =>
    step fun ⟨⟨_, _, _⟩, ⟨_, _, _⟩, hread⟩ => ?_
  obtain ⟨hreceiver, hread⟩ := hread.of_mk
  obtain ⟨hparameters, hrest⟩ := hread.of_mk
  infer_instance

instance {start start' : Nat} [Same twins start start'] :
    Tracks twins (conditionalType g start) (conditionalType g' start') := by
  unfold conditionalType; infer_instance
instance : Tracks twins (anyType g) (anyType g') := by unfold anyType; infer_instance

theorem anyBinding (g : Grammar) :
    Tracks twins (Binding.name <$> variableName) (Parser.anyBinding g) := by
  refine ⟨fun {context within cursor copy} hcontext hmirrors => ?_⟩
  have htracks : TracksAt twins (Binding.name <$> variableName) (Binding.name <$> variableName)
      context within cursor copy := Tracks.tracksAt hcontext hmirrors
  refine Yields.mono htracks fun _ _ => Or.imp_right fun hreaches => ?_
  have hname : isBindingName copy.token = true := by
    obtain ⟨_, _, hrun, -⟩ := (reaches_bind ..).mp ((reaches_map ..).mp hreaches)
    by_contra hno
    rw [identifier_apply, dif_neg hno] at hrun
    contradiction
  have hmark : ∀ mark, copy.token.is mark = false := by
    intro mark
    rw [Token.is, beq_eq_false_iff_ne]
    intro hkind
    simp [isBindingName, hkind] at hname
  simpa [Parser.anyBinding, hmark] using hreaches

end Tracks

/-! ## Quoted parts -/

/-- The grammar of types with names in the place of patterns and without expressions. -/
def quotedGrammar : Nat → Grammar
  | 0 => grammar 0
  | depth + 1 =>
      { grammar 0 with
        type := anyType (quotedGrammar depth)
        typeOperand := typeOperand (quotedGrammar depth)
        binding := .name <$> variableName }

instance (depth : Nat) : (quotedGrammar depth).IsStable := by
  induction depth with
  | zero =>
      refine ⟨fun _ => ?_, ?_, ?_, ?_, ?_⟩ <;> exact inferInstanceAs (Stable failure)
  | succ depth ih =>
      exact ⟨fun _ => inferInstanceAs (Stable failure), inferInstanceAs (Stable failure),
        inferInstanceAs (Stable (anyType _)), inferInstanceAs (Stable (typeOperand _)),
        inferInstanceAs (Stable (Binding.name <$> variableName))⟩

theorem quotedGrammar_isTracked (twins : Twins) {depth deeper : Nat} (h : depth ≤ deeper) :
    (quotedGrammar depth).IsTracked twins (grammar deeper) := by
  induction depth generalizing deeper with
  | zero =>
      refine ⟨fun _ => ?_, ?_, ?_, ?_, ?_⟩ <;> exact inferInstanceAs (Tracks twins failure _)
  | succ depth ih =>
      obtain ⟨deeper, rfl⟩ : ∃ smaller, deeper = smaller + 1 := ⟨deeper - 1, by omega⟩
      have := ih (Nat.le_of_succ_le_succ h)
      exact ⟨fun _ => inferInstanceAs (Tracks twins failure _),
        inferInstanceAs (Tracks twins failure _),
        inferInstanceAs (Tracks twins (anyType _) (anyType _)),
        inferInstanceAs (Tracks twins (typeOperand _) (typeOperand _)), Tracks.anyBinding _⟩

end ComponentDocs.Script
