import ComponentDocs.Proofs.Props.Types

/-!
# Reading the members of a props script

The declaration of the type of the properties is read with a member of the tree for each of
its members, of the same name and with the type as it was written.
-/

namespace ComponentDocs.Props

open ComponentDocs.Script
open ComponentDocs.Script.Parser

variable {source : Text} {context : Context} {cursor : Cursor} {g : Grammar}

def ReadsMember (source : Text) (member : Member) (node : Script.Member) : Prop :=
  node.signature? source = some
    { name := member.name.text, type := member.type.text, optional := member.optional,
      readonly := false, payload := none }

theorem Stuck.yields_typeMember (h : Stuck source cursor) {post : Script.Member → Cursor → Prop} :
    Yields (typeMember g) context cursor post := by
  obtain ⟨argument, rank, rest, hat, hrest⟩ := h
  have hless : cursor.token.is .less = true := hat.is_sign .less
  simp only [typeMember, bareMember, signature, yields_bind, yields_position, yields_atMark, hless,
    Bool.or_true, ↓reduceIte, yields_discard]
  refine (yields_typeParameters hat).mono fun _ moved hmoved => ?_
  have hparen : moved.token.is .openParen = false := by
    obtain ⟨_, mark, more, hpieces, -, hmark⟩ := hrest.brackets rank
    rw [hpieces] at hmoved
    exact hmoved.is_sign_eq_false .openParen hmark (by decide)
  simp [parameters, atReceiver, hparen]

variable {gap : Gap} {rest separator more : List Piece}

theorem yields_propertyKey {name : Name} (h : cursor.At source (word gap name :: rest)) :
    Yields (propertyKey g) context cursor fun key moved =>
      key = .static name.text ∧ moved = cursor.advance := by
  simp only [propertyKey, yields_bind, yields_token, h.kind_eq, Body.kind_word, yields_advance,
    yields_pure, h.text_eq, and_true]
  rfl

theorem yields_declaredType (type : TypeExpr) (hrest : EndsType rest)
    (h : cursor.At source (sign .none .colon :: (type.pieces .space ++ rest))) (depth : Nat) :
    Yields (declaredType? (grammar depth)) context cursor fun node moved =>
      (∃ inner, node = some inner ∧ ReadsType source type.text rest inner moved) ∨
        Stuck source moved := by
  have hcolon : cursor.token.is .colon = true := h.is_sign .colon
  simp only [declaredType?, yields_bind, yields_atMark, hcolon, ↓reduceIte, yields_needsTypes,
    yields_advance, Cursor.flawIf_advance, yields_pure]
  refine (type.yields_type hrest (h.advance.flawIf _) depth).mono fun inner moved hread => ?_
  exact hread.imp_left fun hread => ⟨inner, rfl, hread⟩

theorem Separates.yields_endMember (h : Separates .semicolon separator rest)
    (hat : cursor.At source (separator ++ rest)) :
    Yields endMember context cursor fun _ moved => moved.At source rest := by
  rcases h with rfl | ⟨rfl, more, rfl⟩
  · have hcomma : cursor.token.is .comma = false := hat.is_sign .comma
    have hsemicolon : cursor.token.is .semicolon = true := hat.is_sign .semicolon
    simpa [endMember, hcomma, hsemicolon] using hat.advance
  · have hcomma : cursor.token.is .comma = false := hat.is_sign .comma
    have hsemicolon : cursor.token.is .semicolon = false := hat.is_sign .semicolon
    simpa [endMember, hcomma, hsemicolon] using hat

theorem Stuck.yields_endMember (h : Stuck source cursor) :
    Yields endMember context cursor fun _ moved => Stuck source moved := by
  have hcomma : cursor.token.is .comma = false := h.is_eq_false (by decide)
  have hsemicolon : cursor.token.is .semicolon = false := h.is_eq_false (by decide)
  simpa [endMember, hcomma, hsemicolon] using h

/-- The member has been read, whatever its span will be. -/
def BuildsMember (source : Text) (member : Member) (rest : List Piece)
    (build : Span → Script.Member) (moved : Cursor) : Prop :=
  (moved.At source rest ∧ ∀ span, ReadsMember source member (build span)) ∨ Stuck source moved

theorem Member.yields_property (member : Member) (context : Context) (hrest : EndsType rest)
    (h : cursor.At source (sign .none .colon :: (member.type.pieces .space ++ rest)))
    (depth : Nat) :
    Yields (do
      let declaredType ← declaredType? (grammar depth)
      return fun span => Script.Member.property span (.static member.name.text) false
        member.optional declaredType) context cursor (BuildsMember source member rest) := by
  refine Yields.bind (yields_declaredType member.type hrest h depth)
    fun declared moved hdeclared => ?_
  rw [yields_pure]
  refine hdeclared.imp_left ?_
  rintro ⟨inner, rfl, hmoved, hprints⟩
  refine ⟨hmoved, fun span => ?_⟩
  simp [ReadsMember, Script.Member.signature?, TypeNode.textOr, hprints.text_eq,
    hprints.payload_eq]

theorem Member.yields_keyedMember (member : Member) (context : Context) (hrest : EndsType rest)
    (h : cursor.At source (member.pieces ++ rest)) (depth : Nat) :
    Yields (keyedMember (grammar depth) false) context cursor
      (BuildsMember source member rest) := by
  have hproperty := fun (moved : Cursor) (hat : moved.At source _) =>
    member.yields_property context hrest hat depth
  have hcolon : ∀ (moved : Cursor) (ahead : List Piece),
      moved.At source (sign .none .colon :: ahead) →
      moved.token.is .openParen = false ∧ moved.token.is .less = false :=
    fun moved ahead hat => ⟨hat.is_sign .openParen, hat.is_sign .less⟩
  obtain ⟨name, optional, type⟩ := member
  refine Yields.bind (yields_propertyKey h) fun key moved hkey => ?_
  obtain ⟨rfl, rfl⟩ := hkey
  have hnext := h.advance
  cases optional with
  | false =>
      have hquestion : cursor.advance.token.is .question = false := hnext.is_sign .question
      have hmarks := hcolon _ _ hnext
      simp only [yields_bind, yields_eat, hquestion, Bool.false_eq_true, ↓reduceIte, yields_atMark,
        hmarks, Bool.or_self]
      simpa using hproperty _ hnext
  | true =>
      have hquestion : cursor.advance.token.is .question = true := hnext.is_sign .question
      have hmarks := hcolon _ _ hnext.advance
      simp only [yields_bind, yields_eat, hquestion, ↓reduceIte, yields_atMark, hmarks,
        Bool.or_self, Bool.false_eq_true]
      simpa using hproperty _ hnext.advance

theorem Member.exists_pieces (member : Member) (rest : List Piece) : ∃ mark more,
    member.pieces ++ rest = word .space member.name :: sign .none mark :: more ∧
      (mark = .question ∨ mark = .colon) := by
  obtain ⟨name, optional, type⟩ := member
  cases optional with
  | false => exact ⟨.colon, _, rfl, .inr rfl⟩
  | true => exact ⟨.question, _, rfl, .inl rfl⟩

theorem yields_eatModifier {nextGap : Gap} {name : Name} {mark : Sign}
    (h : cursor.At source (word gap name :: sign nextGap mark :: more))
    (hmark : mark = .question ∨ mark = .colon) (keyword : Keyword) :
    Yields (eatModifier keyword) context cursor fun value moved =>
      value = false ∧ moved = cursor := by
  simp only [eatModifier, yields_bind, yields_atWord]
  refine (yields_atModifier_sign h.advance keyword).mono fun value moved hvalue => ?_
  obtain ⟨rfl, hvalue⟩ := hvalue
  cases value with
  | false => simp
  | true =>
      rcases hvalue rfl with rfl | rfl
      · simp at hmark
      · simp at hmark

theorem Member.yields_bareMember (member : Member) (hrest : EndsType rest)
    (h : cursor.At source (member.pieces ++ rest)) (depth : Nat) :
    Yields (bareMember (grammar depth)) context cursor (BuildsMember source member rest) := by
  have hkeyed := member.yields_keyedMember context hrest h depth
  obtain ⟨mark, more, hpieces, hmark⟩ := member.exists_pieces rest
  rw [hpieces] at h
  have hword : ∀ mark, cursor.token.is mark = false := by simp [h.is_eq]
  have hopen : cursor.advance.token.is .openParen = false := by
    refine (h.advance.is_sign .openParen).trans (decide_eq_false ?_)
    rcases hmark with rfl | rfl <;> decide
  have hless : cursor.advance.token.is .less = false := by
    refine (h.advance.is_sign .less).trans (decide_eq_false ?_)
    rcases hmark with rfl | rfl <;> decide
  simp only [bareMember, yields_bind, yields_atMark, hword, Bool.or_self, Bool.false_eq_true,
    ↓reduceIte, yields_nextToken, yields_atWord, hopen, hless, Bool.and_false]
  refine (yields_modifiers_word h).mono fun words moved hwords => ?_
  rcases hwords with ⟨rfl, rfl⟩ | ⟨rfl | rfl, -⟩
  · simp only [List.any_nil, yields_flawIf, Cursor.flawIf_false]
    refine (yields_eatModifier h hmark .getWord).mono fun value moved hvalue => ?_
    obtain ⟨rfl, rfl⟩ := hvalue
    simp only [Bool.false_eq_true, ↓reduceIte, yields_bind]
    refine (yields_eatModifier h hmark .setWord).mono fun value moved hvalue => ?_
    obtain ⟨rfl, rfl⟩ := hvalue
    simpa [atIndexSignature, hword] using hkeyed
  · simp at hmark
  · simp at hmark

theorem Member.yields_typeMember (member : Member)
    (hseparator : Separates .semicolon separator rest)
    (h : cursor.At source (member.pieces ++ (separator ++ rest))) (depth : Nat) :
    Yields (typeMember (grammar depth)) context cursor fun node moved =>
      (moved.At source rest ∧ ReadsMember source member node) ∨ Stuck source moved := by
  have hends : EndsType (separator ++ rest) := hseparator.startsWith (by decide) (by decide)
  simp only [typeMember, yields_bind, yields_position, yields_spanFrom, yields_pure]
  refine (member.yields_bareMember hends h depth).mono fun build moved hbuild => ?_
  rcases hbuild with ⟨hmoved, hreads⟩ | hstuck
  · exact (hseparator.yields_endMember hmoved).mono fun _ _ hfinal => .inl ⟨hfinal, hreads _⟩
  · exact hstuck.yields_endMember.mono fun _ _ => .inr

def memberItem (g : Grammar) : Parser (Option Script.Member) := do
  if ← atMark .closeBrace then return none
  return some (← typeMember g)

theorem yields_memberItems (members : List Member)
    (h : cursor.At source (joined .semicolon (members.map Member.pieces) ++
      sign .space .closeBrace :: more)) (depth fuel : Nat) :
    Yields (collectFrom (memberItem (grammar depth)) fuel) context cursor fun nodes moved =>
      moved.At source (sign .space .closeBrace :: more) ∧
        List.Forall₂ (ReadsMember source) members nodes := by
  induction members generalizing cursor fuel with
  | nil =>
      have hclose : cursor.token.is .closeBrace = true := h.is_sign .closeBrace
      refine Yields.collectFrom ?_ fuel
      simp only [memberItem, yields_bind, yields_atMark, hclose, ↓reduceIte, yields_pure]
      exact ⟨h, .nil⟩
  | cons member members ih =>
      obtain ⟨separator, hseparator, hpieces⟩ :=
        exists_separator .semicolon member.pieces (members.map Member.pieces) more
      rw [List.map_cons, hpieces] at h
      have hclose : cursor.token.is .closeBrace = false := by
        obtain ⟨mark, ahead, hahead, -⟩ := member.exists_pieces _
        rw [hahead] at h
        simp [h.is_eq]
      refine Yields.collectFrom ?_ fuel
      simp only [memberItem, yields_bind, yields_atMark, hclose, Bool.false_eq_true, ↓reduceIte,
        yields_pure]
      refine (member.yields_typeMember hseparator h depth).mono fun node moved hread fuel => ?_
      rcases hread with ⟨hmoved, hnode⟩ | hstuck
      · exact (ih hmoved fuel).mono fun nodes final hnodes => ⟨hnodes.1, .cons hnode hnodes.2⟩
      · refine Yields.collectFrom ?_ fuel
        have hclose : moved.token.is .closeBrace = false := hstuck.is_eq_false (by decide)
        simp only [yields_bind, yields_atMark, hclose, Bool.false_eq_true, ↓reduceIte]
        exact hstuck.yields_typeMember

theorem yields_typeMembers (members : List Member) (h : cursor.At source (sign .space .openBrace ::
      (joined .semicolon (members.map Member.pieces) ++ sign .space .closeBrace :: more)))
    (depth : Nat) :
    Yields (typeMembers (grammar depth)) context cursor fun nodes moved =>
      moved.At source more ∧ List.Forall₂ (ReadsMember source) members nodes := by
  simp only [typeMembers, yields_bind, yields_expect, yields_pure]
  intro _
  rw [yields_collect]
  refine (yields_memberItems members h.advance depth _).mono fun nodes moved hread _ => ?_
  exact ⟨hread.1.advance, hread.2⟩

theorem yields_heritage {mark : Sign} {post : Unit → Cursor → Prop}
    (h : cursor.At source (sign gap mark :: rest))
    (hpost : post () cursor) : Yields (heritage g) context cursor post := by
  have hkeyword : ∀ word, cursor.token.isKeyword word = false := by simp [h.isKeyword_eq]
  rw [heritage, yields_discard]
  refine Yields.collect ?_
  simpa [hkeyword] using hpost

theorem yields_interfaceDeclaration (members : List Member)
    (h : cursor.At source (word gap interfaceName :: word .space propsName ::
      sign .space .openBrace :: (joined .semicolon (members.map Member.pieces) ++
        sign .space .closeBrace :: more))) (depth : Nat) :
    Yields (interfaceDeclaration (grammar depth)) context cursor fun form moved =>
      moved.At source more ∧ ∃ name nodes, form = .struct name true nodes ∧
        name.text = propsName.text ∧ List.Forall₂ (ReadsMember source) members nodes := by
  simp only [interfaceDeclaration, yields_bind, yields_expectWord, yields_pure]
  intro _
  refine h.advance.yields_identifier.mono fun name moved hname => ?_
  obtain ⟨hname, hmoved⟩ := hname
  have hless : moved.token.is .less = false := hmoved.is_sign .less
  simp only [typeParameters, yields_discard, yields_bind, yields_atMark, hless,
    Bool.false_eq_true, ↓reduceIte, yields_pure]
  refine yields_heritage hmoved ?_
  refine (yields_typeMembers members hmoved depth).mono fun nodes final hnodes => ?_
  exact ⟨hnodes.1, name, nodes, rfl, hname, hnodes.2⟩

end ComponentDocs.Props
