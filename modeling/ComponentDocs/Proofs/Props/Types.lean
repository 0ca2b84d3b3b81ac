import ComponentDocs.Proofs.Props.TypeOperands

/-!
# Reading the types of a props script

A type is read up to the punctuator behind it, and printed as it was written.  A type in
parentheses is not taken for the parameters of a function, and the parts of a union are
read one after the other.
-/

namespace ComponentDocs.Props

open ComponentDocs.Script
open ComponentDocs.Script.Parser

variable {source : Text} {context : Context} {cursor : Cursor} {g : Grammar}

variable {rest more : List Piece} {nextGap gap : Gap} {mark : Sign} {rank : Nat} {unit : TypeUnit}
  {post : TypeNode → Cursor → Prop}

theorem yields_modifiers_other {piece : Piece} {post : List Keyword → Cursor → Prop}
    (h : cursor.At source (piece :: rest)) (hbody : ∀ name, piece.body ≠ .word name)
    (hpost : post [] cursor) :
    Yields modifiers context cursor post := by
  refine Yields.collect ?_
  obtain ⟨gap, body⟩ := piece
  cases body with
  | word name => exact absurd rfl (hbody name)
  | _ => simpa [modifierItem, h.kind_eq] using hpost

theorem yields_atModifier_sign (hnext : cursor.advance.At source (sign nextGap mark :: more))
    (keyword : Keyword) :
    Yields (atModifier keyword) context cursor fun value moved =>
      moved = cursor ∧ (value = true → mark = .openBracket ∨ mark = .openBrace) := by
  have hfollows : followsModifier cursor.advance.token = true →
      mark = .openBracket ∨ mark = .openBrace := by
    have hbracket : cursor.advance.token.is .openBracket = decide (mark = .openBracket) :=
      hnext.is_sign .openBracket
    have hbrace : cursor.advance.token.is .openBrace = decide (mark = .openBrace) :=
      hnext.is_sign .openBrace
    have hstar : cursor.advance.token.is .star = false := hnext.is_eq_false (by decide)
    have hdots : cursor.advance.token.is .ellipsis = false := hnext.is_eq_false (by decide)
    simp [followsModifier, startsKey, hnext.kind_eq, hbracket, hbrace, hstar, hdots]
  have henum : cursor.advance.token.isKeyword .enumWord = false := by simp [hnext.isKeyword_eq]
  simp only [atModifier, yields_bind, yields_nextToken, yields_pure, true_and, modifies]
  split
  · simp [henum]
  · rw [Bool.and_eq_true]
    exact fun hvalue => hfollows hvalue.1
  · exact hfollows
  · exact hfollows
  · rw [Bool.and_eq_true]
    exact fun hvalue => hfollows hvalue.2

theorem yields_modifiers_word {name : Name}
    (h : cursor.At source (word gap name :: sign nextGap mark :: more)) :
    Yields modifiers context cursor fun words moved =>
      (words = [] ∧ moved = cursor) ∨
        ((mark = .openBracket ∨ mark = .openBrace) ∧ moved = cursor.advance) := by
  have hnext := h.advance
  refine Yields.collect ?_
  simp only [modifierItem, yields_bind, yields_token, h.kind_eq, Body.kind_word]
  cases Keyword.ofText? name.text with
  | none => simp
  | some keyword =>
      refine Yields.bind (yields_atModifier_sign hnext keyword) fun value moved hvalue => ?_
      obtain ⟨rfl, hvalue⟩ := hvalue
      simp only [yields_ite, yields_bind, yields_advance, yields_pure]
      split
      · next hmodifier =>
          simp only [Bool.and_eq_true] at hmodifier
          refine fun fuel => Yields.collectFrom ?_ fuel
          simpa [modifierItem, hnext.kind_eq] using hvalue hmodifier.2
      · simp

def groupSigns : List Sign := [.less, .openBracket, .bar, .closeParen]

/-- Whether a parameter starts at a word, a punctuator that no parameter goes on with
follows it. -/
theorem yields_skipParameterStart_word {name : Name} (mark : Sign)
    (h : cursor.At source (word gap name :: sign nextGap mark :: more)) (hmark : mark ∈ groupSigns)
    (hbinding : mark = .openBracket → Yields g.binding context cursor.advance fun _ moved =>
      ∃ gap mark more, moved.At source (sign gap mark :: more) ∧ mark ∈ groupSigns) :
    Yields (skipParameterStart g) context cursor fun value moved => value = true →
      ∃ gap mark more, moved.At source (sign gap mark :: more) ∧ mark ∈ groupSigns := by
  have hnext := h.advance
  refine Yields.bind (?_ : Yields _ _ _ fun _ moved => moved = cursor ∨ moved = cursor.advance) ?_
  · rw [yields_discard]
    exact (yields_modifiers_word h).mono fun words moved hread => hread.imp And.right And.right
  · intro _ moved hmoved
    rcases hmoved with rfl | rfl
    · simp only [yields_bind, yields_token, yields_ite, yields_advance, yields_pure]
      have hbracket : moved.token.is .openBracket = false := by simp [h.is_eq]
      have hbrace : moved.token.is .openBrace = false := by simp [h.is_eq]
      split
      · exact fun _ => ⟨nextGap, mark, more, hnext, hmark⟩
      · simp [hbracket, hbrace]
    · have hplain : isPlainName cursor.advance.token = false := by
        simp [isPlainName, hnext.kind_eq]
      have hthis : cursor.advance.token.isKeyword .thisWord = false := by
        simp [hnext.isKeyword_eq]
      have hbrace : cursor.advance.token.is .openBrace = false := by
        exact hnext.is_sign_eq_false .openBrace hmark (by decide)
      have hbracket : cursor.advance.token.is .openBracket = decide (mark = .openBracket) :=
        hnext.is_sign .openBracket
      simp only [yields_bind, yields_token, yields_ite, yields_advance, yields_pure, hplain, hthis,
        Bool.or_self, Bool.false_eq_true, ↓reduceIte, hbrace, Bool.or_false, hbracket,
        decide_eq_true_eq, yields_get, yields_discard]
      split
      · next hopen => exact (hbinding hopen).mono fun _ _ hread _ => hread
      · exact False.elim

theorem yields_binding_brackets
    (h : cursor.At source (sign .none .openBracket :: sign .none .closeBracket :: rest))
    (depth : Nat) :
    Yields (grammar depth).binding context cursor fun _ moved => moved.At source rest := by
  cases depth with
  | zero => exact yields_failure
  | succ depth =>
      have hbrace : cursor.token.is .openBrace = false := h.is_sign .openBrace
      have hopen : cursor.token.is .openBracket = true := h.is_sign .openBracket
      have hclose : cursor.advance.token.is .closeBracket = true := h.advance.is_sign .closeBracket
      have hdots : cursor.advance.token.is .ellipsis = false := h.advance.is_eq_false (by decide)
      change Yields (anyBinding (grammar depth)) context cursor _
      simp only [anyBinding, yields_bind, yields_token, hbrace, Bool.false_eq_true, ↓reduceIte,
        hopen, arrayBinding, yields_expect, forall_const, yields_discard]
      refine Yields.collect ?_
      simpa [hclose, hdots] using h.advance.advance

theorem yields_skipParameterStart_other {piece : Piece} (h : cursor.At source (piece :: rest))
    (hbody : ∀ name, piece.body ≠ .word name) (hbracket : cursor.token.is .openBracket = false)
    (hbrace : cursor.token.is .openBrace = false) :
    Yields (skipParameterStart g) context cursor fun value _ => value = false := by
  have hplain : isPlainName cursor.token = false := by
    obtain ⟨gap, body⟩ := piece
    cases body with
    | word name => exact absurd rfl (hbody name)
    | _ => simp [isPlainName, h.kind_eq]
  have hthis : cursor.token.isKeyword .thisWord = false := by
    obtain ⟨gap, body⟩ := piece
    cases body with
    | word name => exact absurd rfl (hbody name)
    | _ => simp [h.isKeyword_eq]
  simp only [skipParameterStart, yields_bind, yields_discard]
  refine yields_modifiers_other h hbody ?_
  simp [hplain, hthis, hbracket, hbrace]

theorem yields_skipParameterStart (hmark : mark = .bar ∨ mark = .closeParen)
    (h : cursor.At source (unit.pieces .none ++ (bracketPieces rank ++ sign gap mark :: more)))
    (depth : Nat) :
    Yields (skipParameterStart (grammar depth)) context cursor fun value moved => value = true →
      ∃ gap mark more, moved.At source (sign gap mark :: more) ∧ mark ∈ groupSigns := by
  have hgroup : mark ∈ groupSigns := by rcases hmark with rfl | rfl <;> decide
  cases unit with
  | name name =>
      cases rank with
      | zero =>
          refine yields_skipParameterStart_word mark h hgroup ?_
          rintro rfl
          simp at hmark
      | succ rank =>
          refine yields_skipParameterStart_word .openBracket h (by decide) fun _ => ?_
          refine (yields_binding_brackets h.advance depth).mono fun _ moved hmoved => ?_
          cases rank with
          | zero => exact ⟨gap, mark, more, hmoved, hgroup⟩
          | succ rank => exact ⟨_, _, _, hmoved, by decide⟩
  | generic name argument =>
      exact yields_skipParameterStart_word .less h (by decide) nofun
  | literal literal =>
      exact (yields_skipParameterStart_other h nofun (by simp [h.is_eq]) (by simp [h.is_eq])).mono
        fun value _ hvalue htrue => by simp [hvalue] at htrue
  | group inner =>
      exact (yields_skipParameterStart_other h nofun (h.is_sign .openBracket)
        (h.is_sign .openBrace)).mono fun value _ hvalue htrue => by simp [hvalue] at htrue

theorem yields_atFunctionParameters {inner : TypeExpr} (h : cursor.At source (sign gap .openParen ::
      (inner.pieces .none ++ sign .none .closeParen :: rest))) {post : Bool → Cursor → Prop}
    (hpost : post false cursor) (depth : Nat) :
    Yields (atFunctionParameters (grammar depth)) context cursor post := by
  have hinner := h.advance
  have hclose : cursor.advance.token.is .closeParen = false := inner.is_first hinner (by decide)
  have hdots : cursor.advance.token.is .ellipsis = false := hinner.is_eq_false (by decide)
  have hopen : cursor.token.is .openParen = true := h.is_sign .openParen
  have hstart : Yields (skipParameterStart (grammar depth)) context cursor.advance
      fun value moved => value = true →
        ∃ gap mark more, moved.At source (sign gap mark :: more) ∧ mark ∈ groupSigns := by
    obtain ⟨unit, rank, ahead, hpieces, hahead⟩ :=
      inner.exists_operand .none (sign .none .closeParen :: rest)
    rw [hpieces] at hinner
    rcases hahead with rfl | ⟨more, rfl⟩
    · exact yields_skipParameterStart (.inr rfl) hinner depth
    · exact yields_skipParameterStart (.inl rfl) hinner depth
  refine Yields.isAhead_false ?_ hpost
  simp only [yields_bind, yields_expect, hopen, forall_const, yields_atMark, hclose, hdots,
    Bool.or_self, Bool.false_eq_true, ↓reduceIte]
  refine hstart.mono fun value moved hmoved => ?_
  cases value with
  | false => simp
  | true =>
      obtain ⟨gap, mark, more, hmoved, hmark⟩ := hmoved rfl
      have hother : ∀ other : Sign, other ∉ groupSigns → moved.token.is other.mark = false := by
        refine fun other hother => (hmoved.is_sign other).trans (decide_eq_false ?_)
        rintro rfl
        exact hother hmark
      have hcolon : moved.token.is .colon = false := hother .colon (by decide)
      have hcomma : moved.token.is .comma = false := hother .comma (by decide)
      have hquestion : moved.token.is .question = false := hother .question (by decide)
      have hassign : moved.token.is .assign = false := hother .assign (by decide)
      have harrow : moved.advance.token.is .arrow = false := hmoved.advance.is_eq_false (by decide)
      simp [hcolon, hcomma, hquestion, hassign, harrow]

/-! ## Functions -/

/-- Of the types that are written without an arrow, only one that starts with `new` is taken
for that of a function. -/
theorem yields_atFunctionType (hrest : EndsOperand rest)
    (h : cursor.At source (unit.pieces gap ++ (bracketPieces rank ++ rest))) (depth : Nat) :
    Yields (atFunctionType (grammar depth)) context cursor fun value moved =>
      moved = cursor ∧ value = cursor.token.isKeyword .newWord := by
  have hless : cursor.token.is .less = false := unit.is_first h (by decide)
  -- a word in front of a punctuator is not in front of `new`
  have hword : ∀ {name nextGap mark more},
      cursor.At source (word gap name :: sign nextGap mark :: more) →
      Yields (atFunctionType (grammar depth)) context cursor fun value moved =>
        moved = cursor ∧ value = cursor.token.isKeyword .newWord := by
    intro name nextGap mark more hat
    have hopen : cursor.token.is .openParen = false := by simp [hat.is_eq]
    have hnext : cursor.advance.token.isKeyword .newWord = false := by
      simp [hat.advance.isKeyword_eq]
    simp only [atFunctionType, yields_bind, yields_token, hless, Bool.false_or, yields_ite,
      yields_pure, true_and, hopen, Bool.false_eq_true, ↓reduceIte, yields_nextToken, hnext,
      Bool.and_false]
    cases cursor.token.isKeyword .newWord <;> simp
  cases unit with
  | name name =>
      obtain ⟨nextGap, mark, more, hahead, -, -⟩ := hrest.brackets rank
      rw [hahead] at h
      exact hword h
  | generic name argument => exact hword h
  | literal literal => simp [atFunctionType, hless, h.is_eq, h.isKeyword_eq]
  | group inner =>
      have hopen : cursor.token.is .openParen = true := h.is_sign .openParen
      have hnew : cursor.token.isKeyword .newWord = false := by simp [h.isKeyword_eq]
      rw [TypeUnit.pieces, List.cons_append, List.append_assoc, List.singleton_append] at h
      simp only [atFunctionType, yields_bind, yields_token, hless, hnew, Bool.or_self,
        Bool.false_eq_true, ↓reduceIte, hopen]
      exact yields_atFunctionParameters h ⟨rfl, rfl⟩ depth

theorem yields_functionType (hrest : EndsOperand rest)
    (h : cursor.At source (unit.pieces gap ++ (bracketPieces rank ++ rest)))
    (hnew : cursor.token.isKeyword .newWord = true) :
    Yields (functionType g) context cursor post := by
  have hkind : cursor.token.isKeyword .abstractWord = false := by
    rw [Token.isKeyword, Bool.and_eq_true, beq_iff_eq] at hnew
    simp [Token.isKeyword, hnew.1]
  obtain ⟨nextGap, mark, more, hahead, -, hmark⟩ := hrest.brackets rank
  have hparameters : ∀ moved : Cursor, moved.At source (bracketPieces rank ++ rest) →
      moved.token.is .openParen = false := by
    intro moved hmoved
    rw [hahead] at hmoved
    exact hmoved.is_sign_eq_false .openParen hmark (by decide)
  have htypeParameters : Yields (typeParameters g) context cursor.advance fun _ moved =>
      moved.At source (bracketPieces rank ++ rest) := by
    cases unit with
    | name name =>
        have hless : cursor.advance.token.is .less = false := by
          have hnext := h.advance
          rw [hahead] at hnext
          exact hnext.is_sign_eq_false .less hmark (by decide)
        simpa [typeParameters, hless] using h.advance
    | generic name argument =>
        rw [TypeUnit.pieces, List.cons_append, List.cons_append, List.append_assoc,
          List.singleton_append] at h
        exact yields_typeParameters h.advance
    | literal literal => simp [h.isKeyword_eq] at hnew
    | group inner => simp [h.isKeyword_eq] at hnew
  simp only [functionType, yields_bind, yields_position, yields_discard, yields_eatWord, hkind,
    hnew, Bool.false_eq_true, ↓reduceIte]
  refine htypeParameters.mono fun _ moved hmoved => ?_
  simp [atReceiver, parameters, hparameters moved hmoved]

theorem yields_anyType (type : TypeExpr) (hrest : EndsType rest)
    (h : cursor.At source (type.pieces gap ++ rest)) {depth : Nat}
    (hunion : Yields (unionType (grammar depth)) context cursor fun node moved =>
      post node moved ∧ moved.token.isKeyword .extendsWord = false) :
    Yields (anyType (grammar depth)) context cursor post := by
  obtain ⟨unit, rank, ahead, hpieces, hahead⟩ := type.exists_operand gap rest
  have hends : EndsOperand ahead := by
    rcases hahead with rfl | ⟨more, rfl⟩
    · exact hrest.endsOperand
    · exact .of_sign rfl (by decide) more
  rw [hpieces] at h
  refine Yields.bind (yields_atFunctionType hends h depth) fun value moved hvalue => ?_
  obtain ⟨rfl, rfl⟩ := hvalue
  split
  · next hnew => exact yields_functionType hends h hnew
  · simp only [yields_bind, yields_position, yields_read, yields_token, yields_eatWord, yields_ite]
    refine hunion.mono fun node moved hmoved => ?_
    simp [hmoved.1, hmoved.2]

/-! ## Unions -/

def unionPart (g : Grammar) : Parser TypeNode :=
  joinedTypes .ampersand .intersection g.typeOperand

def barredPart (g : Grammar) : Parser (Option TypeNode) := do
  if ← eat .bar then return some (← unionPart g) else return none

theorem yields_unionPart {pieces : List Piece} (h : cursor.At source pieces)
    (hoperand : Yields g.typeOperand context cursor fun node moved =>
      post node moved ∧ ∃ pieces, moved.At source pieces) :
    Yields (unionPart g) context cursor post := by
  have hleading : cursor.token.is .ampersand = false := h.is_eq_false (by decide)
  simp only [unionPart, joinedTypes, yields_bind, yields_eat, hleading, Bool.false_eq_true,
    ↓reduceIte]
  refine hoperand.mono fun node moved hmoved => ?_
  obtain ⟨hnode, pieces, hmoved⟩ := hmoved
  have hampersand : moved.token.is .ampersand = false := hmoved.is_eq_false (by decide)
  refine Yields.collect ?_
  simpa [hampersand] using hnode

def unionParts (g : Grammar) (fuel : Nat) : Parser (TypeNode × List TypeNode) := do
  let first ← unionPart g
  let others ← collectFrom (barredPart g) fuel
  return (first, others)

theorem yields_unionType (hbar : cursor.token.is .bar = false)
    (hparts : ∀ fuel, Yields (unionParts g fuel) context cursor fun parts moved =>
      post (if parts.2.isEmpty then parts.1 else .union (parts.1 :: parts.2)) moved) :
    Yields (unionType g) context cursor post := by
  have hfuel := hparts context.itemBound
  simp only [unionParts, yields_bind, yields_pure] at hfuel
  change Yields (joinedTypes .bar .union (unionPart g)) context cursor post
  simp only [joinedTypes, yields_bind, yields_eat, hbar, Bool.false_eq_true, ↓reduceIte,
    yields_collect]
  refine hfuel.mono fun first moved hmoved => hmoved.mono fun others final hfinal => ?_
  cases others with
  | nil => simpa using hfinal
  | cons other others => simpa using hfinal

structure PrintsParts (source text : Text) (parts : TypeNode × List TypeNode) : Prop where
  text_eq : Text.join " | " (TypeNode.texts source (parts.1 :: parts.2)) = text
  payload_eq : parts.1.payload? source = none

theorem PrintsParts.prints {text : Text} {parts : TypeNode × List TypeNode}
    (h : PrintsParts source text parts) :
    Prints source text (if parts.2.isEmpty then parts.1 else .union (parts.1 :: parts.2)) := by
  obtain ⟨first, others⟩ := parts
  cases others with
  | nil => exact ⟨by simpa [TypeNode.texts, Text.join] using h.text_eq, h.payload_eq⟩
  | cons other others =>
      exact ⟨by simpa [TypeNode.text] using h.text_eq, by simp [TypeNode.payload?]⟩

def ReadsType (source text : Text) (rest : List Piece) (node : TypeNode) (moved : Cursor) : Prop :=
  moved.At source rest ∧ Prints source text node

theorem yields_type_of_parts (type : TypeExpr) (hrest : EndsType rest)
    (h : cursor.At source (type.pieces gap ++ rest))
    (hparts : ∀ depth fuel, Yields (unionParts (grammar depth) fuel) context cursor
      fun parts moved => (moved.At source rest ∧ PrintsParts source type.text parts) ∨
        Stuck source moved) (depth : Nat) :
    Yields (grammar depth).type context cursor fun node moved =>
      ReadsType source type.text rest node moved ∨ Stuck source moved := by
  refine yields_grammar_type (fun depth => yields_anyType type hrest h ?_) depth
  refine yields_unionType (type.is_first h (by decide)) fun fuel => ?_
  refine (hparts depth fuel).mono fun parts moved hmoved => ?_
  rcases hmoved with ⟨hmoved, hprints⟩ | hstuck
  · refine ⟨.inl ⟨hmoved, hprints.prints⟩, ?_⟩
    obtain ⟨_, mark, more, rfl, -, -⟩ := hrest
    simp [hmoved.isKeyword_eq]
  · exact ⟨.inr hstuck, hstuck.isKeyword_eq _⟩

theorem yields_unionParts {pieces : List Piece} {text : Text} (h : cursor.At source pieces)
    (hoperand : Yields g.typeOperand context cursor fun node moved =>
      ReadsOperand source text rest node moved ∨ Stuck source moved)
    {post : TypeNode × List TypeNode → Cursor → Prop}
    (hstuck : ∀ parts moved, Stuck source moved → post parts moved)
    (hothers : ∀ node moved, ReadsOperand source text rest node moved →
      Yields (barredPart g) context moved fun value final =>
        match value with
        | none => post (node, []) final
        | some value => ∀ fuel, Yields (collectFrom (barredPart g) fuel) context final
            fun values last => post (node, value :: values) last)
    (fuel : Nat) : Yields (unionParts g fuel) context cursor post := by
  simp only [unionParts, yields_bind, yields_pure]
  refine yields_unionPart h (hoperand.mono fun node moved hread => ⟨?_, ?_⟩)
  · refine Yields.collectFrom ?_ fuel
    rcases hread with hread | hmoved
    · refine (hothers node moved hread).mono fun value final hvalue => ?_
      cases value <;> exact hvalue
    · have hbar : moved.token.is .bar = false := hmoved.is_eq_false (by decide)
      simpa [barredPart, hbar] using hstuck _ _ hmoved
  · rcases hread with hread | ⟨_, _, _, hmoved, -⟩
    · exact ⟨rest, hread.1⟩
    · exact ⟨_, hmoved⟩

mutual

theorem TypeUnit.yields_typeOperand (unit : TypeUnit) {context : Context} {cursor : Cursor}
    {gap : Gap} {rank : Nat} {rest : List Piece} (hrest : EndsOperand rest)
    (h : cursor.At source (unit.pieces gap ++ (bracketPieces rank ++ rest))) (depth : Nat) :
    Yields (grammar depth).typeOperand context cursor fun node moved =>
      ReadsOperand source (unit.text ++ brackets rank) rest node moved ∨ Stuck source moved := by
  cases unit with
  | name name =>
      exact (yields_typeOperand_name hrest rank h depth).mono fun _ _ hread => .inl hread
  | literal literal =>
      refine yields_grammar_typeOperand (fun depth => ?_) depth
      simp only [typeOperand, yields_bind, yields_position, yields_token, h.kind_eq,
        Body.kind_string, yields_withReader, simpleType, yields_extend]
      refine (yields_tokenType h).mono fun node moved hquotes => ?_
      have hprints := hquotes.prints h rfl (Quoted.tidy literal)
      exact (yields_typeSuffixes_prints hprints hrest hquotes.1 _).mono fun _ _ hread => .inl hread
  | generic name argument =>
      refine yields_typeOperand_generic hrest rank h (fun depth context cursor hat => ?_) depth
      have hclose : EndsType (sign .none .greater :: (bracketPieces rank ++ rest)) :=
        .of_sign rfl (by decide) _
      refine (yields_type_of_parts argument hclose hat
        (fun depth fuel => argument.yields_unionParts hclose hat depth fuel) depth).mono ?_
      exact fun _ _ hread => hread.imp_left And.left
  | group inner =>
      refine yields_grammar_typeOperand (fun depth => ?_) depth
      have hopen : cursor.token.is .openParen = true := h.is_sign .openParen
      have hclose : EndsType (sign .none .closeParen :: (bracketPieces rank ++ rest)) :=
        .of_sign rfl (by decide) _
      rw [TypeUnit.pieces, List.cons_append, List.append_assoc, List.singleton_append] at h
      simp only [typeOperand, yields_bind, yields_position, yields_token, h.kind_eq,
        Body.kind_mark, Sign.mark, yields_withReader, simpleType, parenthesizedType,
        yields_expect, hopen, forall_const, yields_pure, yields_extend]
      refine (yields_type_of_parts inner hclose h.advance
        (fun depth fuel => inner.yields_unionParts hclose h.advance depth fuel) depth).mono
        fun node moved hread hparen => ?_
      rcases hread with ⟨hmoved, hprints⟩ | hstuck
      · have hgroup : Prints source (TypeUnit.group inner).text (.parenthesized node) := by
          refine ⟨?_, by simpa [TypeNode.payload?] using hprints.payload_eq⟩
          simp [TypeNode.text, TypeUnit.text, hprints.text_eq]
        exact (yields_typeSuffixes_prints ⟨hgroup, rfl⟩ hrest hmoved.advance _).mono
          fun _ _ hread => .inl hread
      · rw [hstuck.is_eq_false (by decide)] at hparen
        contradiction

theorem TypeExpr.yields_unionParts (type : TypeExpr) {context : Context} {cursor : Cursor}
    {gap : Gap} {rest : List Piece} (hrest : EndsType rest)
    (h : cursor.At source (type.pieces gap ++ rest)) (depth fuel : Nat) :
    Yields (unionParts (grammar depth) fuel) context cursor fun parts moved =>
      (moved.At source rest ∧ PrintsParts source type.text parts) ∨ Stuck source moved := by
  cases type with
  | single unit rank =>
      rw [TypeExpr.pieces, List.append_assoc] at h
      refine yields_unionParts h (unit.yields_typeOperand hrest.endsOperand h depth)
        (fun _ _ hstuck => .inr hstuck) (fun node moved hread => ?_) fuel
      have hbar : moved.token.is .bar = false := by
        obtain ⟨_, mark, more, rfl, -, hmark⟩ := hrest
        exact hread.1.is_sign_eq_false .bar hmark (by decide)
      have hparts : PrintsParts source (TypeExpr.single unit rank).text (node, []) :=
        ⟨by simpa [TypeNode.texts, Text.join, TypeExpr.text] using hread.2.1.text_eq,
          hread.2.1.payload_eq⟩
      simpa [barredPart, hbar] using Or.inl ⟨hread.1, hparts⟩
  | union unit rank others =>
      rw [TypeExpr.pieces, List.append_assoc, List.append_assoc] at h
      have hahead : EndsOperand (sign .space .bar :: (others.pieces .space ++ rest)) :=
        .of_sign rfl (by decide) _
      refine yields_unionParts h (unit.yields_typeOperand hahead h depth)
        (fun _ _ hstuck => .inr hstuck) (fun node moved hread => ?_) fuel
      have hbar : moved.token.is .bar = true := hread.1.is_sign .bar
      have hothers : ∀ fuel, Yields (unionParts (grammar depth) fuel) context moved.advance
          fun parts final => (final.At source rest ∧ PrintsParts source others.text parts) ∨
            Stuck source final :=
        others.yields_unionParts hrest hread.1.advance depth
      simp only [unionParts, yields_bind, yields_pure, ← yields_forall] at hothers
      simp only [barredPart, yields_bind, yields_eat, hbar, ↓reduceIte, yields_pure]
      refine hothers.mono fun value final hvalue fuel => (hvalue fuel).mono ?_
      intro values last hvalues
      refine hvalues.imp_left (And.imp_right fun hparts => ⟨?_, hread.2.1.payload_eq⟩)
      simpa [TypeNode.texts, Text.join, hread.2.1.text_eq, TypeExpr.text] using hparts.text_eq

end

/-- A type is read up to the punctuator behind it and printed as it is written, or its reader
stops in front of type arguments. -/
theorem TypeExpr.yields_type (type : TypeExpr) (hrest : EndsType rest)
    (h : cursor.At source (type.pieces gap ++ rest)) (depth : Nat) :
    Yields (grammar depth).type context cursor fun node moved =>
      ReadsType source type.text rest node moved ∨ Stuck source moved :=
  yields_type_of_parts type hrest h (fun depth fuel => type.yields_unionParts hrest h depth fuel)
    depth

end ComponentDocs.Props
