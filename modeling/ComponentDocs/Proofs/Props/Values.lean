import ComponentDocs.Proofs.Number
import ComponentDocs.Proofs.Props.Pieces
import ComponentDocs.Proofs.Props.Shape
import ComponentDocs.Proofs.Script.Yields
import ComponentDocs.Script.Parse

/-!
# Reading the values of a props script

An expression in front of a comma, a brace or a semicolon is read as its one operand.  The
defaults of properties have the value that they stand for.
-/

namespace ComponentDocs.Props

open ComponentDocs.Script
open ComponentDocs.Script.Parser

variable {source : Text} {context : Context} {cursor : Cursor} {g : Grammar}

def valueEnds : List Sign := [.comma, .closeBrace, .semicolon]

abbrev EndsValue : List Piece → Prop := StartsWith valueEnds

variable {rest : List Piece} {start : Nat} {allowed : Bool} {post : Expr → Cursor → Prop}
  {gap : Gap}

theorem yields_memberStep_end (hrest : EndsValue rest) (h : cursor.At source rest) {chains : Bool}
    {operand : Operand} {post : Option Operand → Cursor → Prop} (hpost : post none cursor) :
    Yields (memberStep g chains start operand) context cursor post := by
  obtain ⟨gap, mark, more, rfl, -, hmark⟩ := hrest
  simp only [valueEnds, List.mem_cons, List.not_mem_nil, or_false] at hmark
  simp only [memberStep, yields_bind, yields_token, yields_read, h.kind_eq, Body.kind_mark]
  rcases hmark with rfl | rfl | rfl <;> simpa [Sign.mark] using hpost

theorem yields_callStep_end (hrest : EndsValue rest) (h : cursor.At source rest) {operand : Operand}
    {post : Option Operand → Cursor → Prop} (hpost : post none cursor) :
    Yields (callStep g start operand) context cursor post := by
  have hchain : cursor.token.is .questionDot = false := h.is_eq_false (by decide)
  have hopen : cursor.token.is .openParen = false := by
    obtain ⟨gap, mark, more, rfl, -, hmark⟩ := hrest
    exact h.is_sign_eq_false .openParen hmark (by decide)
  simpa [callStep, hchain, hopen] using hpost

theorem yields_operationStep_end (hrest : EndsValue rest) (h : cursor.At source rest) {level : Nat}
    {left : Expr} {post : Option Expr → Cursor → Prop} (hpost : post none cursor) :
    Yields (operationStep g level start left) context cursor post := by
  obtain ⟨gap, mark, more, rfl, -, hmark⟩ := hrest
  have hgreater : cursor.token.is .greater = false := by
    exact h.is_sign_eq_false .greater hmark (by decide)
  have hprecedence : precedence? cursor.token = none := by
    simp only [valueEnds, List.mem_cons, List.not_mem_nil, or_false] at hmark
    rcases hmark with rfl | rfl | rfl <;> simp [precedence?, h.kind_eq, Sign.mark]
  simpa [operationStep, yields_rescanGreater hgreater, hprecedence] using hpost

theorem yields_assignmentTail_end (hrest : EndsValue rest) (h : cursor.At source rest) {left : Expr}
    (hpost : post left cursor) :
    Yields (assignmentTail g allowed start left) context cursor post := by
  obtain ⟨gap, mark, more, rfl, -, hmark⟩ := hrest
  simp only [valueEnds, List.mem_cons, List.not_mem_nil, or_false] at hmark
  rcases hmark with rfl | rfl | rfl <;>
    simpa [assignmentTail, h.is_eq, isCompoundAssignment, h.kind_eq, Sign.mark] using hpost

def leadingWords : List Keyword := [.yieldWord, .asyncWord, .awaitWord, .functionWord]

/-- A token with which no arrow function starts, and no operator that is a word. -/
structure IsPlain (token : Token) : Prop where
  openParen_eq : token.is .openParen = false
  less_eq : token.is .less = false
  isKeyword_eq : ∀ word ∈ leadingWords, token.isKeyword word = false
  kind_ne : token.kind ≠ .privateName

theorem yields_leftHandSide (source : Text) (hrest : EndsValue rest)
    (hprimary : Yields (primary g) context cursor fun expr moved =>
      moved.At source rest ∧ post expr moved) :
    Yields (leftHandSide g) context cursor post := by
  simp only [leftHandSide, yields_bind, yields_position]
  refine hprimary.mono fun expr moved hread => ?_
  refine Yields.extend ?_
  rw [yields_bind]
  refine yields_memberStep_end hrest hread.1 (yields_callStep_end hrest hread.1 ?_)
  simpa [Operand.close] using hread.2

theorem yields_operand {pieces : List Piece} (rest : List Piece) (h : cursor.At source pieces)
    (hplain : IsPlain cursor.token) (hunary : isUnaryOperator cursor.token = false)
    (hleft : Yields (leftHandSide g) context cursor fun expr moved =>
      moved.At source rest ∧ post expr moved) :
    Yields (operand g) context cursor post := by
  have hincrement : ∀ {cursor : Cursor} {pieces : List Piece}, cursor.At source pieces →
      cursor.token.is .increment = false ∧ cursor.token.is .decrement = false :=
    fun h => ⟨h.is_eq_false (by decide), h.is_eq_false (by decide)⟩
  have hawait : cursor.token.isKeyword .awaitWord = false := hplain.isKeyword_eq _ (by decide)
  simp only [operand, yields_bind, yields_position, yields_token, yields_read, hunary,
    hplain.less_eq, Bool.false_eq_true, ↓reduceIte, atAwait, yields_atWord, hawait, Bool.not_false,
    yields_pure, counted, yields_eat, hincrement h, Bool.or_self]
  refine hleft.mono fun expr moved hread => ?_
  simpa [hincrement hread.1] using hread.2

theorem yields_operation (source : Text) {level : Nat} (hrest : EndsValue rest)
    (hplain : IsPlain cursor.token)
    (hoperand : ∀ depth, Yields (operand (grammar depth)) context cursor fun expr moved =>
      moved.At source rest ∧ post expr moved) (depth : Nat) :
    Yields ((grammar depth).operation level) context cursor post := by
  cases depth with
  | zero => exact yields_failure
  | succ depth =>
      have hprivate : (cursor.token.kind == .privateName) = false := by simpa using hplain.kind_ne
      change Yields (operation (grammar depth) level) context cursor post
      simp only [operation, yields_bind, yields_position, yields_token, hprivate,
        Bool.false_eq_true, ↓reduceIte]
      refine (hoperand depth).mono fun expr moved hread => ?_
      exact Yields.extend (yields_operationStep_end hrest hread.1 hread.2)

theorem yields_arrowLikelihood (hplain : IsPlain cursor.token)
    {post : Likelihood → Cursor → Prop} (hpost : post .no cursor) :
    Yields arrowLikelihood context cursor post := by
  have hasync : cursor.token.isKeyword .asyncWord = false := hplain.isKeyword_eq _ (by decide)
  rw [arrowLikelihood, yields_bind]
  refine Yields.ahead (fun value => value = .no) ?_ fun result hresult => ?_
  · simp [hasync, hplain.openParen_eq, hplain.less_eq]
  · cases result with
    | none => simpa using hpost
    | some value => simpa [hresult value rfl] using hpost

/-- An expression without commas is its operand, if nothing else stands in front of what
ends it. -/
theorem yields_assignment (source : Text) (hrest : EndsValue rest) (hplain : IsPlain cursor.token)
    (hoperand : ∀ depth, Yields (operand (grammar depth)) context cursor fun expr moved =>
      moved.At source rest ∧ post expr moved) (depth : Nat) :
    Yields ((grammar depth).assignment allowed) context cursor post := by
  cases depth with
  | zero => exact yields_failure
  | succ depth =>
      have hyield : cursor.token.isKeyword .yieldWord = false := hplain.isKeyword_eq _ (by decide)
      have hasync : cursor.token.isKeyword .asyncWord = false := hplain.isKeyword_eq _ (by decide)
      change Yields (assignment (grammar depth) allowed) context cursor post
      simp only [assignment, yields_bind, atYield, yields_atWord, hyield, Bool.not_false,
        ↓reduceIte, yields_pure, Bool.false_eq_true, parenthesizedArrow?, yields_position]
      refine yields_arrowLikelihood hplain ?_
      simp only [yields_pure, atAsyncArrow, yields_bind, yields_atWord, hasync, Bool.not_false,
        ↓reduceIte, Bool.false_eq_true, yields_position]
      refine yields_operation source hrest hplain (fun inner => ?_) depth
      refine (hoperand inner).mono fun expr moved hread => ⟨hread.1, ?_⟩
      have htail : Yields (assignmentTail (grammar depth) allowed cursor.token.span.start expr)
          context moved post := yields_assignmentTail_end hrest hread.1 hread.2
      have harrow : moved.token.is .arrow = false := hread.1.is_eq_false (by decide)
      cases expr with
      | identifier name span => simpa [harrow] using htail
      | _ => exact htail

def literalKinds : List TokenKind :=
  [.string, .number .decimal, .name (some .trueWord), .name (some .falseWord),
    .name (some .nullWord)]

def literalExpr (token : Token) : Expr :=
  match token.kind with
  | .string => .string token.text token.span
  | .number radix => .number (numberValue? radix token.text) token.span
  | .name (some .trueWord) => .boolean true token.span
  | .name (some .falseWord) => .boolean false token.span
  | _ => .null token.span

theorem isPlain_of_literal (h : cursor.token.kind ∈ literalKinds) : IsPlain cursor.token := by
  simp only [literalKinds, List.mem_cons, List.not_mem_nil, or_false] at h
  rcases h with h | h | h | h | h <;>
    constructor <;> simp [Token.is, Token.isKeyword, h, leadingWords]

theorem yields_primary_literal (h : cursor.token.kind ∈ literalKinds) :
    Yields (primary g) context cursor fun expr moved =>
      expr = literalExpr cursor.token ∧ moved = cursor.advance := by
  have hplain := isPlain_of_literal h
  have hfunction : cursor.token.isKeyword .functionWord = false :=
    hplain.isKeyword_eq _ (by decide)
  have hasync : cursor.token.isKeyword .asyncWord = false := hplain.isKeyword_eq _ (by decide)
  simp only [literalKinds, List.mem_cons, List.not_mem_nil, or_false] at h
  simp only [primary, yields_bind, atFunction, yields_atWord, hfunction, Bool.false_eq_true,
    ↓reduceIte, yields_nextToken, hasync, Bool.false_and, yields_pure, yields_token]
  rcases h with h | h | h | h | h <;> simp [h, literalExpr]

theorem yields_operand_literal {piece : Piece} (hrest : EndsValue rest)
    (h : cursor.At source (piece :: rest)) (hkind : cursor.token.kind ∈ literalKinds) :
    Yields (operand g) context cursor fun expr moved =>
      moved.At source rest ∧ expr = literalExpr cursor.token := by
  have hunary : isUnaryOperator cursor.token = false := by
    simp only [literalKinds, List.mem_cons, List.not_mem_nil, or_false] at hkind
    rcases hkind with hkind | hkind | hkind | hkind | hkind <;> simp [isUnaryOperator, hkind]
  refine yields_operand rest h (isPlain_of_literal hkind) hunary
    (yields_leftHandSide source hrest ?_)
  refine (yields_primary_literal hkind).mono fun expr moved hread => ?_
  obtain ⟨rfl, rfl⟩ := hread
  exact ⟨h.advance, h.advance, h.advance, rfl⟩

def ReadsDefault (source : Text) (fallback : Default) (rest : List Piece) (expr : Expr)
    (moved : Cursor) : Prop :=
  moved.At source rest ∧ Component.exprValue source expr = fallback.value

theorem ofText_true : Keyword.ofText? "true".toList = some .trueWord := by decide

theorem ofText_false : Keyword.ofText? "false".toList = some .falseWord := by decide

theorem ofText_null : Keyword.ofText? "null".toList = some .nullWord := by decide

theorem quotedValue_integer (negative : Bool) (digits : Digits) :
    Component.quotedValue ((if negative then ("-" : Text) else []) ++ digits.text) =
      (Default.integer negative digits).value := by
  have hsome := Number.isSome_readDecimal? negative digits.ne_nil digits.isDigit digits.length_le
  obtain ⟨number, hnumber⟩ := Option.isSome_iff_exists.mp hsome
  have htidy : Text.Tidy ((if negative then ("-" : Text) else []) ++ digits.text) :=
    (Default.integer negative digits).tidy
  simp only [Component.quotedValue, htidy.trim_eq, hnumber, Default.value]

theorem yields_grammar_operand (h : ∀ depth, Yields (operand (grammar depth)) context cursor post)
    (depth : Nat) :
    Yields (grammar depth).operand context cursor post := by
  cases depth with
  | zero => exact yields_failure
  | succ depth => exact h depth

theorem yields_operand_negative {digits : Digits} (hrest : EndsValue rest)
    (h : cursor.At source (sign .space .minus :: ⟨.none, .number digits⟩ :: rest)) (depth : Nat) :
    Yields (operand (grammar depth)) context cursor fun expr moved => moved.At source rest ∧
      Component.exprValue source expr = (Default.integer true digits).value := by
  have hunary : isUnaryOperator cursor.token = true := by
    simp [isUnaryOperator, h.kind_eq, Sign.mark]
  simp only [operand, yields_bind, yields_position, yields_token, yields_read, hunary, ↓reduceIte,
    yields_advance, yields_discard]
  refine yields_grammar_operand (fun depth => ?_) depth
  have hkind : cursor.advance.token.kind ∈ literalKinds := by
    simp [h.advance.kind_eq, literalKinds]
  refine (yields_operand_literal hrest h.advance hkind).mono fun _ moved hread => ?_
  have hpower : moved.token.is .power = false := hread.1.is_eq_false (by decide)
  simp only [yields_atMark, hpower, yields_flawIf, Cursor.flawIf_false, yields_spanFrom,
    yields_pure]
  refine ⟨hread.1, ?_⟩
  have hspan : Span.text ⟨cursor.token.span.start, moved.previousStop⟩ source =
      '-' :: digits.text := h.span_text hread.1 (by simp [Sign.char])
  rw [Component.exprValue, hspan]
  exact quotedValue_integer true digits

theorem Default.yields_assignment (fallback : Default) (hrest : EndsValue rest)
    (h : cursor.At source (fallback.pieces ++ rest)) (depth : Nat) :
    Yields ((grammar depth).assignment allowed) context cursor
      (ReadsDefault source fallback rest) := by
  have hliteral : ∀ {piece : Piece} {kind : TokenKind}, cursor.At source (piece :: rest) →
      cursor.token.kind = kind → kind ∈ literalKinds →
      Component.exprValue source (literalExpr cursor.token) = fallback.value →
      Yields ((grammar depth).assignment allowed) context cursor
        (ReadsDefault source fallback rest) := by
    rintro piece _ hat rfl hkind hvalue
    refine Props.yields_assignment source hrest (isPlain_of_literal hkind)
      (fun depth => ?_) depth
    refine (yields_operand_literal hrest hat hkind).mono fun expr moved hread => ?_
    exact ⟨hread.1, hread.1, hread.2 ▸ hvalue⟩
  cases fallback with
  | boolean value =>
      cases value with
      | true =>
          have hkind := h.kind_eq.trans (congrArg TokenKind.name ofText_true)
          refine hliteral h hkind (by decide) ?_
          simp [literalExpr, hkind, Component.exprValue, Default.value]
      | false =>
          have hkind := h.kind_eq.trans (congrArg TokenKind.name ofText_false)
          refine hliteral h hkind (by decide) ?_
          simp [literalExpr, hkind, Component.exprValue, Default.value]
  | null =>
      have hkind := h.kind_eq.trans (congrArg TokenKind.name ofText_null)
      refine hliteral h hkind (by decide) ?_
      simp [literalExpr, hkind, Component.exprValue, Default.value]
  | integer negative digits =>
      cases negative with
      | false =>
          refine hliteral h h.kind_eq (by simp [literalKinds]) ?_
          simp [literalExpr, h.kind_eq, h.text_eq, Body.lexeme, numberValue?, Component.exprValue,
            Default.value]
      | true =>
          have hplain : IsPlain cursor.token := by
            constructor <;> simp [h.is_eq, h.isKeyword_eq, h.kind_eq, Sign.mark]
          refine Props.yields_assignment source hrest hplain (fun depth => ?_) depth
          exact (yields_operand_negative hrest h depth).mono fun _ _ hread => ⟨hread.1, hread⟩
  | string quoted =>
      refine hliteral h h.kind_eq (by simp [literalKinds]) ?_
      simp [literalExpr, h.kind_eq, h.text_eq, Body.lexeme, Component.exprValue, Default.value]

theorem yields_arguments_empty
    (h : cursor.At source (sign gap .openParen :: sign .none .closeParen :: rest)) :
    Yields (arguments g) context cursor fun _ moved => moved.At source rest := by
  have hclose : cursor.advance.token.is .closeParen = true := h.advance.is_sign .closeParen
  simp only [arguments, yields_bind, yields_expect, yields_discard, yields_withReader, commaList,
    yields_atMark, hclose, ↓reduceIte, yields_pure]
  exact fun _ _ => h.advance.advance

theorem yields_memberStep_paren (h : cursor.At source (sign gap .openParen :: rest)) {chains : Bool}
    {operand : Operand} {post : Option Operand → Cursor → Prop} (hpost : post none cursor) :
    Yields (memberStep g chains start operand) context cursor post := by
  simpa [memberStep, h.kind_eq, Sign.mark] using hpost

theorem yields_leftHandSide_call {name : Name} (hrest : EndsValue rest)
    (hname : Keyword.ofText? name.text = none) (h : cursor.At source
      (word gap name :: sign .none .openParen :: sign .none .closeParen :: rest)) :
    Yields (leftHandSide g) context cursor fun expr moved =>
      moved.At source rest ∧ ∃ inner outer, expr = .call (.identifier name.text inner) outer := by
  have hfunction : ∀ word, cursor.token.isKeyword word = false := by simp [h.isKeyword_eq, hname]
  simp only [leftHandSide, yields_bind, yields_position, primary, atFunction, yields_atWord,
    hfunction, Bool.false_eq_true, ↓reduceIte, yields_nextToken, Bool.false_and, yields_pure,
    yields_token, h.kind_eq, Body.kind_word, hname]
  refine h.yields_variableName.mono fun text moved hread => ?_
  obtain ⟨rfl, hmoved⟩ := hread
  have hchain : moved.token.is .questionDot = false := hmoved.is_eq_false (by decide)
  have hopen : moved.token.is .openParen = true := hmoved.is_sign .openParen
  refine Yields.extend ?_
  rw [yields_bind]
  refine yields_memberStep_paren hmoved ?_
  simp only [callStep, yields_bind, yields_eat, hchain, Bool.false_eq_true, ↓reduceIte,
    yields_atMark, hopen, yields_spanFrom, yields_pure]
  refine (yields_arguments_empty hmoved).mono fun _ final hfinal fuel => ?_
  refine Yields.extendFrom ?_ fuel
  rw [yields_bind]
  refine yields_memberStep_end hrest hfinal (yields_callStep_end hrest hfinal ?_)
  exact ⟨hfinal, _, _, rfl⟩

theorem ofText_rune : Keyword.ofText? runeName.text = none := by decide

theorem yields_assignment_rune (hrest : EndsValue rest)
    (h : cursor.At source (word .space runeName :: sign .none .openParen ::
      sign .none .closeParen :: rest)) (depth : Nat) :
    Yields ((grammar depth).assignment allowed) context cursor fun expr moved =>
      moved.At source rest ∧
        ∃ inner outer, expr = .call (.identifier runeName.text inner) outer := by
  have hplain : IsPlain cursor.token := by
    constructor <;> simp [h.is_eq, h.isKeyword_eq, h.kind_eq, ofText_rune]
  have hunary : isUnaryOperator cursor.token = false := by
    simp [isUnaryOperator, h.kind_eq, ofText_rune]
  refine Props.yields_assignment source hrest hplain (fun depth => ?_) depth
  refine yields_operand rest h hplain hunary ?_
  exact (yields_leftHandSide_call hrest ofText_rune h).mono fun _ _ hread =>
    ⟨hread.1, hread.1, hread⟩

end ComponentDocs.Props
