import ComponentDocs.Proofs.Props.Pieces
import ComponentDocs.Proofs.Props.Shape
import ComponentDocs.Proofs.Script.Yields
import ComponentDocs.Script.Parse
import Mathlib.Logic.Function.Iterate

/-!
# Reading the operands of types

A name with its type arguments and brackets is read up to the punctuator behind it, and
printed as it was written.  Words that start a type of their own kind make the reader fail,
or stop in front of type arguments with which nothing can go on.
-/

namespace ComponentDocs.Props

open ComponentDocs.Script
open ComponentDocs.Script.Parser

def typeEnds : List Sign := [.semicolon, .closeBrace, .greater, .closeParen, .assign]

def operandEnds : List Sign := .bar :: typeEnds

abbrev EndsType : List Piece → Prop := StartsWith typeEnds

abbrev EndsOperand : List Piece → Prop := StartsWith operandEnds

variable {rest more : List Piece} {gap nextGap : Gap} {piece : Piece} {name : Name}
  {argument : TypeExpr} {mark : Sign} {post : TypeNode → Cursor → Prop} {start : Nat}
  {node : TypeNode} {text : Text}

theorem StartsWith.endsOperand (h : EndsType rest) : EndsOperand rest := by
  obtain ⟨gap, mark, more, hrest, hgap, hmark⟩ := h
  exact ⟨gap, mark, more, hrest, hgap, List.mem_cons_of_mem _ hmark⟩

theorem TypeExpr.exists_operand (type : TypeExpr) (gap : Gap) (rest : List Piece) :
    ∃ (unit : TypeUnit) (rank : Nat) (ahead : List Piece),
      type.pieces gap ++ rest = unit.pieces gap ++ (bracketPieces rank ++ ahead) ∧
        (ahead = rest ∨ ∃ more, ahead = sign .space .bar :: more) := by
  cases type with
  | single unit rank => exact ⟨unit, rank, rest, by simp [TypeExpr.pieces], .inl rfl⟩
  | union unit rank others =>
      exact ⟨unit, rank, sign .space .bar :: (others.pieces .space ++ rest),
        by simp [TypeExpr.pieces], .inr ⟨_, rfl⟩⟩

variable {source : Text} {context : Context} {cursor : Cursor} {g : Grammar}

theorem TypeUnit.is_first (unit : TypeUnit) (h : cursor.At source (unit.pieces gap ++ rest))
    {mark : Punctuator} (hmark : mark ≠ .openParen) : cursor.token.is mark = false := by
  cases unit with
  | name name | literal literal | generic name argument => simp [h.is_eq]
  | group inner => simpa [h.is_eq, Sign.mark] using hmark.symm

theorem TypeExpr.is_first (type : TypeExpr) (h : cursor.At source (type.pieces gap ++ rest))
    {mark : Punctuator} (hmark : mark ≠ .openParen) : cursor.token.is mark = false := by
  cases type with
  | single unit rank =>
      rw [TypeExpr.pieces, List.append_assoc] at h
      exact unit.is_first h hmark
  | union unit rank others =>
      rw [TypeExpr.pieces, List.append_assoc, List.append_assoc] at h
      exact unit.is_first h hmark

theorem StartsWith.brackets (h : EndsOperand rest) (rank : Nat) :
    StartsWith (.openBracket :: operandEnds) (bracketPieces rank ++ rest) := by
  cases rank with
  | zero =>
      obtain ⟨gap, mark, more, hrest, hgap, hmark⟩ := h
      exact ⟨gap, mark, more, hrest, hgap, List.mem_cons_of_mem _ hmark⟩
  | succ rank => exact ⟨.none, .openBracket, _, rfl, rfl, by decide⟩

theorem yields_typeParameter_other {post : Unit → Cursor → Prop}
    (h : cursor.At source (piece :: rest)) (hbody : ∀ name, piece.body ≠ .word name) :
    Yields (typeParameter g) context cursor post := by
  have hkeyword : ∀ word, cursor.token.isKeyword word = false := by
    intro word
    obtain ⟨gap, body⟩ := piece
    cases body with
    | word name => exact absurd rfl (hbody name)
    | _ => simp [h.isKeyword_eq]
  simp only [typeParameter, yields_bind, yields_discard]
  refine Yields.collect ?_
  simp only [typeParameterModifier, yields_bind, yields_atWord, yields_ite, yields_nextToken,
    yields_pure, hkeyword, Bool.false_eq_true, ↓reduceIte, Bool.or_self, Bool.false_and]
  exact h.yields_variableName_other hbody

theorem yields_typeParameter (mark : Sign)
    (h : cursor.At source (word gap name :: sign nextGap mark :: rest)) (hmark : mark ≠ .assign) :
    Yields (typeParameter g) context cursor fun _ moved =>
      moved.At source (sign nextGap mark :: rest) := by
  have hnext := h.advance
  have hword : isWord cursor.advance.token = false := by simp [isWord, hnext.kind_eq]
  have hassign : mark.mark ≠ .assign := by
    revert hmark
    cases mark <;> decide
  unfold typeParameter
  refine Yields.bind (?_ : Yields _ _ _ fun _ moved => moved = cursor ∨ moved = cursor.advance) ?_
  · -- the word `const` is passed over, and no name follows it
    rw [yields_discard]
    refine Yields.collect ?_
    simp only [typeParameterModifier, yields_bind, yields_atWord, yields_ite, yields_nextToken,
      yields_advance, yields_pure, hword, Bool.and_false, Bool.false_eq_true, ↓reduceIte, true_or]
    split
    · refine fun fuel => Yields.collectFrom ?_ fuel
      simp [hnext.isKeyword_eq]
    · trivial
  · intro _ moved hmoved
    refine Yields.bind (?_ : Yields _ _ _ fun _ moved =>
      moved.At source (sign nextGap mark :: rest)) ?_
    · rw [yields_discard]
      rcases hmoved with rfl | rfl
      · exact h.yields_variableName.mono fun _ _ hread => hread.2
      · exact hnext.yields_variableName_other (by simp)
    · intro _ final hfinal
      simp [hfinal.isKeyword_eq, hfinal.is_eq, hassign, hfinal]

theorem yields_typeParameter_argument
    (h : cursor.At source (argument.pieces .none ++ sign .none .greater :: rest)) :
    Yields (typeParameter g) context cursor fun _ moved => ∃ gap mark more,
      moved.At source (sign gap mark :: more) ∧ mark ≠ .comma ∧
        (mark = .greater → more = rest) := by
  have hunit : ∀ (unit : TypeUnit) (rank : Nat) {gap : Gap} (mark : Sign) {more : List Piece},
      mark ≠ .comma → mark ≠ .assign → (mark = .greater → more = rest) →
      cursor.At source (unit.pieces .none ++ (bracketPieces rank ++ sign gap mark :: more)) →
      Yields (typeParameter g) context cursor fun _ moved => ∃ gap mark more,
        moved.At source (sign gap mark :: more) ∧ mark ≠ .comma ∧
          (mark = .greater → more = rest) := by
    intro unit rank gap mark more hcomma hassign hgreater hat
    cases unit with
    | name name =>
        cases rank with
        | zero =>
            exact (yields_typeParameter mark hat hassign).mono fun _ moved hmoved =>
              ⟨gap, mark, more, hmoved, hcomma, hgreater⟩
        | succ rank =>
            exact (yields_typeParameter .openBracket hat (by decide)).mono
              fun _ moved hmoved => ⟨_, _, _, hmoved, by decide, nofun⟩
    | literal literal => exact yields_typeParameter_other hat nofun
    | generic name argument =>
        exact (yields_typeParameter .less hat (by decide)).mono
          fun _ moved hmoved => ⟨_, _, _, hmoved, by decide, nofun⟩
    | group inner => exact yields_typeParameter_other hat nofun
  cases argument with
  | single unit rank =>
      rw [TypeExpr.pieces, List.append_assoc] at h
      exact hunit unit rank .greater (by decide) (by decide) (fun _ => rfl) h
  | union unit rank others =>
      rw [TypeExpr.pieces, List.append_assoc, List.append_assoc] at h
      exact hunit unit rank .bar (by decide) (by decide) nofun h

theorem yields_typeParameters (h : cursor.At source
      (sign gap .less :: (argument.pieces .none ++ sign .none .greater :: rest))) :
    Yields (typeParameters g) context cursor fun _ moved => moved.At source rest := by
  have hinner := h.advance.flawIf (!context.typed)
  simp only [typeParameters, yields_bind, yields_atMark, h.is_eq, Body.kind_mark, Sign.mark,
    decide_true, ↓reduceIte, yields_position, yields_needsTypes, yields_advance,
    Cursor.flawIf_advance, yields_expect, yields_flawIf, yields_spanFrom, yields_pure]
  refine Yields.commaList_one (argument.is_first hinner (by decide)) ?_
  refine (yields_typeParameter_argument hinner).mono fun _ moved hmoved => ?_
  obtain ⟨_, mark, more, hmoved, hcomma, hgreater⟩ := hmoved
  refine ⟨(hmoved.is_sign .comma).trans (decide_eq_false hcomma), fun hclose _ => ?_⟩
  have hmark : mark = .greater := of_decide_eq_true ((hmoved.is_sign .greater).symm.trans hclose)
  rw [hgreater hmark] at hmoved
  exact hmoved.advance.flawIf _

/-- A cursor in front of type arguments that do not belong to the type before them. -/
def Stuck (source : Text) (cursor : Cursor) : Prop :=
  ∃ (argument : TypeExpr) (rank : Nat) (rest : List Piece),
    cursor.At source (sign .none .less ::
      (argument.pieces .none ++ sign .none .greater :: (bracketPieces rank ++ rest))) ∧
    EndsOperand rest

theorem Stuck.is_eq_false (h : Stuck source cursor) {mark : Punctuator} (hmark : mark ≠ .less) :
    cursor.token.is mark = false := by
  obtain ⟨argument, rank, rest, hat, -⟩ := h
  simpa [hat.is_eq, Sign.mark] using hmark.symm

theorem Stuck.isKeyword_eq (h : Stuck source cursor) (keyword : Keyword) :
    cursor.token.isKeyword keyword = false := by
  obtain ⟨argument, rank, rest, hat, -⟩ := h
  simp [hat.isKeyword_eq]

theorem yields_typeArguments (h : cursor.At source
      (sign gap .less :: (argument.pieces .none ++ sign .none .greater :: rest)))
    (hargument : Yields g.type context cursor.advance fun _ moved =>
      moved.At source (sign .none .greater :: rest) ∨ Stuck source moved) :
    Yields (typeArguments g) context cursor fun _ moved => moved.At source rest := by
  have hless : cursor.token.is .less = true := h.is_sign .less
  simp only [typeArguments, yields_bind, yields_rescanLess hless, yields_expect, hless,
    forall_const, yields_flawIf]
  refine Yields.commaList_one (argument.is_first h.advance (by decide)) ?_
  refine hargument.mono fun _ moved hmoved => ?_
  rcases hmoved with hmoved | hstuck
  · exact ⟨hmoved.is_sign .comma, fun _ _ => hmoved.advance.flawIf _⟩
  · refine ⟨hstuck.is_eq_false (by decide), fun hclose => ?_⟩
    rw [hstuck.is_eq_false (by decide)] at hclose
    contradiction

/-! ## Named types -/

theorem yields_qualifiedName (h : cursor.At source (word gap name :: rest)) :
    Yields qualifiedName context cursor fun _ moved => moved.At source rest := by
  refine Yields.bind (?_ : Yields _ _ _ fun _ moved => moved.At source rest)
    fun _ moved hmoved => ?_
  · rw [yields_discard]
    exact h.yields_anyName.mono fun _ _ hread => hread.2
  · rw [yields_discard]
    refine Yields.collect ?_
    have hdot : moved.token.is .dot = false := hmoved.is_eq_false (by decide)
    simpa [hdot] using hmoved

theorem yields_qualifiedName_sign {post : Unit → Cursor → Prop}
    (h : cursor.At source (sign gap mark :: rest)) :
    Yields qualifiedName context cursor post := by
  simp only [qualifiedName, yields_bind, yields_discard]
  exact h.yields_anyName_mark

/-- The node quotes the source from one cursor up to another, which stands at the
pieces. -/
def Quotes (source : Text) (cursor : Cursor) (rest : List Piece) (node : TypeNode)
    (moved : Cursor) : Prop :=
  moved.At source rest ∧ node = .other ⟨cursor.token.span.start, moved.previousStop⟩

theorem yields_typeReference {ahead : List Piece} (h : cursor.At source (word gap name :: ahead))
    (harguments : ∀ moved : Cursor, moved.At source ahead →
      Yields (optionalTypeArguments g) context moved fun _ final => final.At source rest) :
    Yields (typeReference g) context cursor (Quotes source cursor rest) := by
  simp only [typeReference, yields_bind, yields_position]
  refine (yields_qualifiedName h).mono fun _ moved hmoved => ?_
  refine (harguments moved hmoved).mono fun _ final hfinal => ?_
  simpa [Quotes] using hfinal

theorem yields_tokenType (h : cursor.At source (piece :: rest)) :
    Yields tokenType context cursor (Quotes source cursor rest) := by
  simpa [tokenType, Quotes] using h.advance

theorem yields_simpleType_word (rest : List Piece)
    (h : cursor.At source (word gap name :: sign nextGap mark :: more)) (hmark : mark ≠ .openParen)
    (harguments : ∀ moved : Cursor, moved.At source (sign nextGap mark :: more) →
      Yields (optionalTypeArguments g) context moved fun _ final => final.At source rest)
    (hnamed : ∀ node moved, Quotes source cursor rest node moved → post node moved)
    (htoken : ∀ node moved, Quotes source cursor (sign nextGap mark :: more) node moved →
      post node moved) :
    Yields (simpleType g) context cursor post := by
  have hnext := h.advance
  have hreference := (yields_typeReference h harguments).mono hnamed
  have hname : ∀ {word : Option Keyword}, Yields (do
      let next ← nextToken
      if word.any isPredefinedType && !next.is .dot then tokenType else typeReference g)
        context cursor post := by
    intro word
    simp only [yields_bind, yields_nextToken, yields_ite]
    split
    · exact (yields_tokenType h).mono htoken
    · exact hreference
  simp only [simpleType, yields_bind, yields_token, h.kind_eq, Body.kind_word]
  cases hword : Keyword.ofText? name.text with
  | none => exact hname
  | some keyword =>
      cases keyword with
      | thisWord =>
          simp only [thisType, yields_bind, yields_position, yields_advance, yields_atWord,
            hnext.isKeyword_eq, Body.kind_mark, reduceCtorEq, decide_false, yields_token,
            Bool.false_and, Bool.false_eq_true, ↓reduceIte, yields_spanFrom, yields_pure]
          exact htoken _ _ ⟨hnext, rfl⟩
      | typeofWord =>
          simp only [queriedType, yields_bind, yields_position, yields_nextToken,
            hnext.isKeyword_eq, Body.kind_mark, reduceCtorEq, decide_false, Bool.false_eq_true,
            ↓reduceIte, yields_advance]
          exact yields_qualifiedName_sign hnext
      | importWord =>
          have hparen : cursor.advance.token.is .openParen = false :=
            (hnext.is_sign .openParen).trans (decide_eq_false hmark)
          simp [importedType, h.isKeyword_eq, hword, hparen]
      | assertsWord =>
          simpa [isPlainName, hnext.kind_eq, hnext.isKeyword_eq] using hreference
      | voidWord | nullWord | trueWord | falseWord => exact (yields_tokenType h).mono htoken
      | _ => exact hname

structure Prints (source text : Text) (node : TypeNode) : Prop where
  text_eq : node.text source = text
  payload_eq : node.payload? source = none

theorem yields_typeSuffix_end {post : Option TypeNode → Cursor → Prop}
    (h : cursor.At source (sign gap mark :: rest)) (hmark : mark ∈ .less :: operandEnds)
    (hpost : post none cursor) : Yields (typeSuffix g start node) context cursor post := by
  simp only [typeSuffix, yields_bind, yields_token, yields_ite, yields_pure, h.kind_eq,
    Body.kind_mark]
  split
  · exact hpost
  · simp only [operandEnds, typeEnds, List.mem_cons, List.not_mem_nil, or_false] at hmark
    rcases hmark with rfl | rfl | rfl | rfl | rfl | rfl | rfl <;>
      simpa [Sign.mark] using hpost

theorem yields_typeSuffix_bracket
    (h : cursor.At source (sign .none .openBracket :: sign .none .closeBracket :: rest)) :
    Yields (typeSuffix g start node) context cursor fun next moved =>
      next = some (.array node) ∧ moved.At source rest := by
  have hclose := h.advance
  have hstarts : startsType cursor.advance.token = false := by
    simp only [startsType, hclose.kind_eq, Body.kind_mark, Sign.mark]
    decide
  simp only [typeSuffix, yields_bind, yields_token, h.onNewLine_eq, h.kind_eq, Body.kind_mark,
    Sign.mark, Gap.breaks, Bool.false_eq_true, ↓reduceIte, yields_advance, hstarts, yields_expect,
    yields_pure, true_and]
  exact fun _ => hclose.advance

theorem yields_typeSuffixes (hrest : EndsOperand rest) (rank : Nat)
    (h : cursor.At source (bracketPieces rank ++ rest)) (fuel : Nat) :
    Yields (extendFrom (typeSuffix g start) fuel node) context cursor fun result moved =>
      result = TypeNode.array^[rank] node ∧ moved.At source rest := by
  induction rank generalizing node cursor fuel with
  | zero =>
      obtain ⟨gap, mark, more, rfl, -, hmark⟩ := hrest
      refine Yields.extendFrom ?_ fuel
      exact yields_typeSuffix_end h (List.mem_cons_of_mem _ hmark) ⟨rfl, h⟩
  | succ rank ih =>
      refine Yields.extendFrom ?_ fuel
      refine (yields_typeSuffix_bracket h).mono fun next moved hnext => ?_
      obtain ⟨rfl, hmoved⟩ := hnext
      exact fun fuel => ih hmoved fuel

theorem Quotes.prints {tail : List Piece} {moved : Cursor} (h : cursor.At source (piece :: tail))
    (hquotes : Quotes source cursor rest node moved)
    (htext : piece.body.chars ++ written tail = text ++ written rest) (htidy : Text.Tidy text) :
    Prints source text node ∧ node.needsParens = false := by
  obtain ⟨hmoved, rfl⟩ := hquotes
  refine ⟨⟨?_, rfl⟩, rfl⟩
  rw [TypeNode.text, Span.normalText, h.span_text hmoved htext, htidy.normalize_eq]

theorem Prints.arrays (h : Prints source text node) (hbare : node.needsParens = false)
    (rank : Nat) :
    Prints source (text ++ brackets rank) (TypeNode.array^[rank] node) ∧
      (TypeNode.array^[rank] node).needsParens = false := by
  induction rank generalizing text node with
  | zero => simpa [brackets] using ⟨h, hbare⟩
  | succ rank ih =>
      have harray : Prints source (text ++ ['[', ']']) (.array node) := by
        refine ⟨?_, by simp [TypeNode.payload?]⟩
        simp [TypeNode.text, hbare, h.text_eq]
      simpa [brackets, List.replicate_succ] using ih harray rfl

/-! ## Operands -/

theorem yields_optionalTypeArguments_none {post : Unit → Cursor → Prop}
    (h : cursor.At source (sign gap mark :: more)) (hmark : mark ≠ .less) (hpost : post () cursor) :
    Yields (optionalTypeArguments g) context cursor post := by
  have hless : cursor.token.is .less = false := (h.is_sign .less).trans (decide_eq_false hmark)
  have hshift : cursor.token.is .shiftLeft = false := h.is_eq_false (by decide)
  simpa [optionalTypeArguments, hless, hshift] using hpost

theorem yields_grammar_typeOperand
    (h : ∀ depth, Yields (typeOperand (grammar depth)) context cursor post) (depth : Nat) :
    Yields (grammar depth).typeOperand context cursor post := by
  cases depth with
  | zero => exact yields_failure
  | succ depth => exact h depth

theorem yields_grammar_type (h : ∀ depth, Yields (anyType (grammar depth)) context cursor post)
    (depth : Nat) :
    Yields (grammar depth).type context cursor post := by
  cases depth with
  | zero => exact yields_failure
  | succ depth => exact h depth

/-- Brackets by themselves read as a tuple, and nothing else starts a type behind an
operator. -/
theorem yields_typeOperand_brackets (hrest : EndsOperand rest) (rank : Nat)
    (h : cursor.At source (bracketPieces rank ++ rest)) (depth : Nat) :
    Yields (grammar depth).typeOperand context cursor fun _ moved => moved.At source rest := by
  refine yields_grammar_typeOperand (fun depth => ?_) depth
  cases rank with
  | zero =>
      obtain ⟨gap, mark, more, rfl, -, hmark⟩ := hrest
      simp only [bracketPieces, List.nil_append] at h
      simp only [operandEnds, typeEnds, List.mem_cons, List.not_mem_nil, or_false] at hmark
      rcases hmark with rfl | rfl | rfl | rfl | rfl | rfl <;>
        simp [typeOperand, simpleType, h.kind_eq, Sign.mark]
  | succ rank =>
      have hopen : cursor.token.is .openBracket = true := h.is_sign .openBracket
      have hclose : cursor.advance.token.is .closeBracket = true := h.advance.is_sign .closeBracket
      simp only [typeOperand, yields_bind, yields_position, yields_token, h.kind_eq, Body.kind_mark,
        Sign.mark, yields_withReader, simpleType, tupleType, yields_expect, hopen, forall_const,
        yields_discard, commaList, yields_atMark, hclose, ↓reduceIte, yields_pure, yields_spanFrom]
      rw [yields_extend]
      exact (yields_typeSuffixes hrest rank h.advance.advance _).mono fun _ _ hread => hread.2

theorem yields_typeOperand_word (h : cursor.At source (word gap name :: sign nextGap mark :: more))
    (hoperator : Yields g.typeOperand context cursor.advance fun _ moved =>
      post (.other ⟨cursor.token.span.start, moved.previousStop⟩) moved)
    (hplain : ∀ context, Yields (simpleType g) context cursor fun first moved => ∀ fuel,
      Yields (extendFrom (typeSuffix g cursor.token.span.start) fuel first) context moved post) :
    Yields (typeOperand g) context cursor post := by
  have hnext := h.advance
  have hsimple : ∀ context, Yields (do
      let first ← simpleType g
      extend (typeSuffix g cursor.token.span.start) first) context cursor post := by
    intro context
    simp only [yields_bind, yields_extend]
    exact (hplain context).mono fun first moved hfirst => hfirst _
  simp only [typeOperand, yields_bind, yields_position, yields_token, h.kind_eq, Body.kind_word]
  cases Keyword.ofText? name.text with
  | none => exact hsimple _
  | some keyword =>
      cases keyword with
      | keyofWord | uniqueWord | readonlyWord => simpa using hoperator
      | inferWord =>
          simp only [inferredType, yields_bind, yields_position, yields_advance, yields_discard]
          exact hnext.yields_variableName_other (by simp)
      | _ => exact hsimple _

def ReadsOperand (source text : Text) (rest : List Piece) (node : TypeNode) (moved : Cursor) :
    Prop :=
  moved.At source rest ∧ Prints source text node ∧ node.needsParens = false

theorem yields_typeSuffixes_prints (hnode : Prints source text node ∧ node.needsParens = false)
    (hrest : EndsOperand rest) {rank : Nat} (h : cursor.At source (bracketPieces rank ++ rest))
    (fuel : Nat) : Yields (extendFrom (typeSuffix g start) fuel node) context cursor
      (ReadsOperand source (text ++ brackets rank) rest) := by
  refine (yields_typeSuffixes hrest rank h fuel).mono fun result moved hread => ?_
  obtain ⟨rfl, hmoved⟩ := hread
  exact ⟨hmoved, hnode.1.arrays hnode.2 rank⟩

theorem yields_typeOperand_name (hrest : EndsOperand rest) (rank : Nat)
    (h : cursor.At source (word gap name :: (bracketPieces rank ++ rest))) (depth : Nat) :
    Yields (grammar depth).typeOperand context cursor
      (ReadsOperand source (name.text ++ brackets rank) rest) := by
  refine yields_grammar_typeOperand (fun depth => ?_) depth
  have hquoted : ∀ node moved, Quotes source cursor (bracketPieces rank ++ rest) node moved →
      Prints source name.text node ∧ node.needsParens = false :=
    fun node moved hquotes => hquotes.prints h rfl (Name.tidy name)
  have hnext := h.advance
  obtain ⟨nextGap, mark, more, hahead, hgap, hmark⟩ := hrest.brackets rank
  rw [hahead] at h hquoted
  refine yields_typeOperand_word h ((yields_typeOperand_brackets hrest rank hnext depth).mono
    fun _ moved hmoved => ?_) fun context => ?_
  · refine ⟨hmoved, Quotes.prints h ⟨hmoved, rfl⟩ ?_ (tidy_append_brackets (Name.tidy name) rank)⟩
    rw [← hahead]
    simp [written_bracketPieces]
  · have hread : ∀ node moved, Quotes source cursor (sign nextGap mark :: more) node moved →
        ∀ fuel, Yields (extendFrom (typeSuffix (grammar depth) cursor.token.span.start) fuel node)
          context moved (ReadsOperand source (name.text ++ brackets rank) rest) := by
      intro node moved hquotes fuel
      refine yields_typeSuffixes_prints (hquoted node moved hquotes) hrest ?_ fuel
      rw [hahead]
      exact hquotes.1
    refine yields_simpleType_word _ h ?_ (fun moved hmoved => ?_) hread hread
    · rintro rfl
      exact absurd hmark (by decide)
    · have hless : mark ≠ .less := by
        rintro rfl
        exact absurd hmark (by decide)
      exact yields_optionalTypeArguments_none hmoved hless hmoved

theorem yields_typeOperand_generic (hrest : EndsOperand rest) (rank : Nat)
    (h : cursor.At source ((TypeUnit.generic name argument).pieces gap ++
      (bracketPieces rank ++ rest)))
    (hargument : ∀ depth context cursor, Cursor.At source (argument.pieces .none ++
        sign .none .greater :: (bracketPieces rank ++ rest)) cursor →
      Yields (grammar depth).type context cursor fun _ moved =>
        moved.At source (sign .none .greater :: (bracketPieces rank ++ rest)) ∨
          Stuck source moved) (depth : Nat) :
    Yields (grammar depth).typeOperand context cursor fun node moved =>
      ReadsOperand source ((TypeUnit.generic name argument).text ++ brackets rank) rest node moved ∨
        Stuck source moved := by
  refine yields_grammar_typeOperand (fun depth => ?_) depth
  have hwritten := TypeUnit.written_pieces gap (.generic name argument)
  have htidy := (TypeUnit.generic name argument).tidy
  rw [TypeUnit.pieces, List.cons_append, List.cons_append, List.append_assoc,
    List.singleton_append] at h
  refine yields_typeOperand_word h ?_ fun context => ?_
  · -- nothing with an angle in front of it is an operand
    refine yields_grammar_typeOperand (fun depth => ?_) depth
    simp [typeOperand, simpleType, h.advance.kind_eq, Sign.mark]
  · refine yields_simpleType_word (bracketPieces rank ++ rest) h (by decide)
      (fun moved hmoved => ?_) (fun node moved hquotes fuel => ?_)
      (fun node moved hquotes fuel => ?_)
    · have hless : moved.token.is .less = true := hmoved.is_sign .less
      simp only [optionalTypeArguments, yields_bind, yields_token, hmoved.onNewLine_eq, Gap.breaks,
        hless, Bool.not_false, Bool.true_or, Bool.and_self, ↓reduceIte]
      exact yields_typeArguments hmoved (hargument depth context _ hmoved.advance)
    · have hprints : Prints source (TypeUnit.generic name argument).text node ∧
          node.needsParens = false := by
        refine hquotes.prints h ?_ htidy
        simp [TypeUnit.text, argument.written_pieces, Sign.char]
      exact (yields_typeSuffixes_prints hprints hrest hquotes.1 fuel).mono
        fun _ _ hread => .inl hread
    · refine Yields.extendFrom ?_ fuel
      exact yields_typeSuffix_end hquotes.1 (by decide)
        (Or.inr ⟨argument, rank, rest, hquotes.1, hrest⟩)

end ComponentDocs.Props
