import ComponentDocs.Proofs.Props.Members
import ComponentDocs.Proofs.Props.Values

/-!
# Reading the bindings of a props script

The pattern that takes apart the properties is read with a property of the tree for each of
its bindings, and its declaration with the call that gives the properties.
-/

namespace ComponentDocs.Props

open ComponentDocs.Script
open ComponentDocs.Script.Parser

variable {source : Text} {context : Context} {cursor : Cursor} {g : Grammar}

def ReadsBinding (source : Text) (binding : Binding) (property : BindingProperty) : Prop :=
  property.key = .static binding.name.text ∧
    property.fallback.map (Component.exprValue source) = binding.fallback.map Default.value

theorem yields_fallback (fallback : Option Default) {rest : List Piece} (hrest : EndsValue rest)
    (h : cursor.At source (fallbackPieces fallback ++ rest)) (depth : Nat) :
    Yields (fallback? (grammar depth)) context cursor fun expr moved => moved.At source rest ∧
      expr.map (Component.exprValue source) = fallback.map Default.value := by
  cases fallback with
  | none =>
      have hassign : cursor.token.is .assign = false := by
        obtain ⟨gap, mark, more, rfl, -, hmark⟩ := hrest
        exact h.is_sign_eq_false .assign hmark (by decide)
      simpa [fallback?, hassign, fallbackPieces] using h
  | some fallback =>
      have hassign : cursor.token.is .assign = true := h.is_sign .assign
      simp only [fallback?, yields_bind, yields_eat, hassign, ↓reduceIte, yields_map,
        Grammar.valueWithIn, Grammar.value, yields_withReader]
      refine (fallback.yields_assignment hrest h.advance depth).mono fun expr moved hread => ?_
      exact ⟨hread.1, congrArg some hread.2⟩

theorem Binding.is_colon (binding : Binding) {rest : List Piece} (hrest : EndsValue rest)
    (h : cursor.At source (binding.pieces ++ rest)) :
    cursor.advance.token.is .colon = false := by
  obtain ⟨name, fallback⟩ := binding
  cases fallback with
  | none =>
      obtain ⟨gap, mark, more, rfl, -, hmark⟩ := hrest
      exact h.advance.is_sign_eq_false .colon hmark (by decide)
  | some fallback => exact h.advance.is_sign .colon

theorem Binding.yields_bindingProperty (binding : Binding) {rest : List Piece}
    (hrest : EndsValue rest) (h : cursor.At source (binding.pieces ++ rest)) (depth : Nat) :
    Yields (bindingProperty (grammar depth)) context cursor fun property moved =>
      moved.At source rest ∧ ReadsBinding source binding property := by
  have hcolon := binding.is_colon hrest h
  simp only [bindingProperty, yields_bind, yields_token]
  refine (yields_propertyKey h).mono fun key moved hkey => ?_
  obtain ⟨rfl, rfl⟩ := hkey
  simp only [yields_atMark, hcolon, Bool.not_false, Bool.and_true, yields_ite, yields_bind,
    yields_expect, Bool.false_eq_true, false_implies, yields_pure]
  split
  · exact (yields_fallback binding.fallback hrest h.advance depth).mono fun expr moved hread =>
      ⟨hread.1, rfl, hread.2⟩
  · trivial

def bindingItem (g : Grammar) : Parser (Option BindingProperty) := do
  if (← atMark .closeBrace) || (← atMark .ellipsis) then return none
  let property ← bindingProperty g
  if !(← atMark .closeBrace) then expect .comma
  return some property

theorem Binding.yields_bindingItem (binding : Binding) {separator rest : List Piece}
    (hseparator : Separates .comma separator rest)
    (h : cursor.At source (binding.pieces ++ (separator ++ rest))) (depth : Nat) :
    Yields (bindingItem (grammar depth)) context cursor fun item moved => ∃ property,
      item = some property ∧ moved.At source rest ∧ ReadsBinding source binding property := by
  have hfirst : ∀ mark, cursor.token.is mark = false := by
    intro mark
    rw [h.is_eq]
    rfl
  simp only [bindingItem, yields_bind, yields_atMark, hfirst, Bool.or_self, Bool.false_eq_true,
    ↓reduceIte]
  refine (binding.yields_bindingProperty (hseparator.startsWith (by decide) (by decide)) h
    depth).mono fun property moved hread => ?_
  obtain ⟨hmoved, hproperty⟩ := hread
  rcases hseparator with rfl | ⟨rfl, more, rfl⟩
  · have hclose : moved.token.is .closeBrace = false := hmoved.is_sign .closeBrace
    simpa [hclose] using fun _ => ⟨hmoved.advance, hproperty⟩
  · have hclose : moved.token.is .closeBrace = true := hmoved.is_sign .closeBrace
    simpa [hclose] using ⟨hmoved, hproperty⟩

theorem yields_bindingItems (bindings : List Binding) {more : List Piece}
    (h : cursor.At source (joined .comma (bindings.map Binding.pieces) ++
      sign .space .closeBrace :: more)) (depth fuel : Nat) :
    Yields (collectFrom (bindingItem (grammar depth)) fuel) context cursor
      fun properties moved => moved.At source (sign .space .closeBrace :: more) ∧
        List.Forall₂ (ReadsBinding source) bindings properties := by
  induction bindings generalizing cursor fuel with
  | nil =>
      have hclose : cursor.token.is .closeBrace = true := h.is_sign .closeBrace
      refine Yields.collectFrom ?_ fuel
      simp only [bindingItem, yields_bind, yields_atMark, hclose, Bool.true_or, ↓reduceIte,
        yields_pure]
      exact ⟨h, .nil⟩
  | cons binding bindings ih =>
      obtain ⟨separator, hseparator, hpieces⟩ :=
        exists_separator .comma binding.pieces (bindings.map Binding.pieces) more
      rw [List.map_cons, hpieces] at h
      refine Yields.collectFrom ?_ fuel
      refine (binding.yields_bindingItem hseparator h depth).mono fun item moved hitem => ?_
      obtain ⟨property, rfl, hmoved, hproperty⟩ := hitem
      exact fun fuel => (ih hmoved fuel).mono fun properties final hread =>
        ⟨hread.1, .cons hproperty hread.2⟩

theorem yields_binding (bindings : List Binding) {gap : Gap} {more : List Piece}
    (h : cursor.At source (sign gap .openBrace ::
      (joined .comma (bindings.map Binding.pieces) ++ sign .space .closeBrace :: more)))
    (depth : Nat) :
    Yields (grammar depth).binding context cursor fun binding moved => moved.At source more ∧
      ∃ properties, binding = .object properties ∧
        List.Forall₂ (ReadsBinding source) bindings properties := by
  cases depth with
  | zero => exact yields_failure
  | succ depth =>
      have hopen : cursor.token.is .openBrace = true := h.is_sign .openBrace
      change Yields (anyBinding (grammar depth)) context cursor _
      simp only [anyBinding, yields_bind, yields_token, hopen, ↓reduceIte, objectBinding,
        yields_expect, forall_const, yields_collect]
      refine (yields_bindingItems bindings h.advance depth _).mono fun properties moved hread => ?_
      have hdots : moved.token.is .ellipsis = false := hread.1.is_eq_false (by decide)
      simp only [yields_atMark, hdots, Bool.false_eq_true, ↓reduceIte, yields_bind, yields_expect,
        yields_pure]
      exact fun _ => ⟨hread.1.advance, properties, rfl, hread.2⟩

def ReadsDeclarator (source : Text) (bindings : List Binding) (declarator : Declarator) : Prop :=
  (∃ properties, declarator.binding = .object properties ∧
    List.Forall₂ (ReadsBinding source) bindings properties) ∧
  ∃ inner outer, declarator.init = some (.call (.identifier runeName.text inner) outer)

theorem Stuck.flawIf (h : Stuck source cursor) (condition : Bool) :
    Stuck source (cursor.flawIf condition) := by
  obtain ⟨argument, rank, rest, hat, hrest⟩ := h
  exact ⟨argument, rank, rest, hat.flawIf condition, hrest⟩

theorem Stuck.yields_endStatement (h : Stuck source cursor) {post : Unit → Cursor → Prop} :
    Yields endStatement context cursor post := by
  obtain ⟨argument, rank, rest, hat, -⟩ := h
  simp [endStatement, atStatementEnd, hat.is_eq, hat.kind_eq, hat.onNewLine_eq, Sign.mark,
    Gap.breaks]

theorem yields_declarator (bindings : List Binding) {gap : Gap}
    (h : cursor.At source (sign gap .openBrace ::
      (joined .comma (bindings.map Binding.pieces) ++ lastPieces))) (depth : Nat) :
    Yields (declarator (grammar depth) false false) context cursor fun declarator moved =>
      (moved.At source [sign .none .semicolon] ∧ ReadsDeclarator source bindings declarator) ∨
        Stuck source moved := by
  simp only [declarator, yields_bind, yields_position]
  refine (yields_binding bindings h depth).mono fun binding moved hread => ?_
  obtain ⟨hmoved, properties, rfl, hproperties⟩ := hread
  have hbang : moved.token.is .bang = false := hmoved.is_eq_false (by decide)
  have hquestion : moved.token.is .question = false := hmoved.is_sign .question
  have hends : EndsType (lastPieces.drop 3) := .of_sign (by decide) (by decide) _
  simp only [yields_spanFrom, yields_read, yields_ite, yields_bind, yields_token, yields_discard,
    yields_eat, hbang, hquestion, Bool.false_eq_true, ↓reduceIte, ite_self]
  refine (yields_declaredType (.single (.name propsName) 0) hends hmoved depth).mono
    fun declared final hread => ?_
  rcases hread with ⟨inner, rfl, hfinal, -⟩ | hstuck
  · have hassign : final.token.is .assign = true := hfinal.is_sign .assign
    simp only [Option.isSome_some, ↓reduceIte, hassign, yields_map, Grammar.value]
    refine (yields_assignment_rune (.of_sign (by decide) (by decide) _) hfinal.advance
      depth).mono fun value last hread => ?_
    obtain ⟨hlast, hvalue⟩ := hread
    simp only [yields_flawIf, yields_pure]
    refine .inl ⟨hlast.flawIf _, ⟨properties, rfl, hproperties⟩, ?_⟩
    obtain ⟨inner, outer, rfl⟩ := hvalue
    exact ⟨inner, outer, rfl⟩
  · have hassign : final.token.is .assign = false := hstuck.is_eq_false (by decide)
    simp only [hassign, Bool.false_eq_true, ↓reduceIte, yields_pure, yields_flawIf]
    split <;> exact .inr (hstuck.flawIf _)

theorem ofText_let : Keyword.ofText? letName.text = some .letWord := by decide

theorem yields_variableDeclaration (bindings : List Binding)
    (h : cursor.At source (word .line letName :: sign .space .openBrace ::
      (joined .comma (bindings.map Binding.pieces) ++ lastPieces))) (depth : Nat) :
    Yields (variableDeclaration (grammar depth)) context cursor fun form moved =>
      moved.At source [] ∧ ∃ declarator, form = .bindings true [declarator] ∧
        ReadsDeclarator source bindings declarator := by
  have hlet : cursor.token.isKeyword .letWord = true := by simp [h.isKeyword_eq, ofText_let]
  have hawait : cursor.token.isKeyword .awaitWord = false := by simp [h.isKeyword_eq, ofText_let]
  simp only [variableDeclaration, variableList, yields_bind, yields_discard, yields_eatWord,
    hawait, Bool.false_eq_true, ↓reduceIte, yields_atWord, hlet, Bool.not_true, Bool.false_and,
    yields_advance]
  refine (yields_declarator bindings h.advance depth).mono fun declarator moved hread => ?_
  have hcomma : moved.token.is .comma = false := by
    rcases hread with ⟨hmoved, -⟩ | hstuck
    · exact hmoved.is_sign .comma
    · exact hstuck.is_eq_false (by decide)
  refine Yields.collect ?_
  simp only [yields_bind, yields_eat, hcomma, Bool.false_eq_true, ↓reduceIte, yields_pure]
  rcases hread with ⟨hmoved, hdeclarator⟩ | hstuck
  · have hsemicolon : moved.token.is .semicolon = true := hmoved.is_sign .semicolon
    simp only [endStatement, atStatementEnd, yields_bind, yields_token, hsemicolon, Bool.true_or,
      yields_pure, ↓reduceIte, yields_discard, yields_eat]
    exact ⟨hmoved.advance, declarator, rfl, hdeclarator⟩
  · exact hstuck.yields_endStatement

end ComponentDocs.Props
