import ComponentDocs.Script.Classes
import ComponentDocs.Script.Target

/-!
The grammar of expressions.
-/

namespace ComponentDocs.Script.Parser

variable (g : Grammar)

def expression : Parser Expr := do
  let start ← position
  let first ← g.value
  if ← atMark .comma then
    discard <| collect do
      if ← eat .comma then
        discard g.value
        return some ()
      else return none
    return .other (← spanFrom start)
  else return first

def innerExpression : Parser Expr :=
  withReader (fun c => { c with allowIn := true, allowIndex := true }) (expression g)

def templateLiteral (raw : Bool) : Parser Expr := do
  let start ← position
  let token ← token
  flawIf (!raw && !token.sound)
  advance
  let isHead := token.kind == .templateHead
  if isHead then substitutions raw (discard <| innerExpression g)
  return .template isHead (← spanFrom start)

def parenthesized : Parser Expr := do
  let start ← position
  expect .openParen
  let inner ← innerExpression g
  expect .closeParen
  return .parenthesized inner (← spanFrom start)

def arrayElement : Parser Element := do
  let token ← token
  if token.is .comma then return .hole token.span
  else if ← eat .ellipsis then
    let argument ← g.value
    return .spread argument (← spanFrom token.span.start)
  else return .item (← g.value)

def arrayLiteral : Parser Expr := do
  let start ← position
  expect .openBracket
  let elements ← withReader (fun c => { c with allowIn := true, allowIndex := true })
    (commaList .closeBracket (arrayElement g))
  expect .closeBracket
  return .array elements (← spanFrom start)

def literalMethod (waits yields : Bool) : Parser Expr := do
  let start ← position
  discard <| functionSignature g waits yields
  functionBody g waits yields
  return .other (← spanFrom start)

/-- A property named like the variable that holds its value.  With an assignment it
makes sense in a pattern only, so the place is remembered until then. -/
def shorthandProperty (name : Token) (key : Key) : Parser Property := do
  let context ← read
  flawIf (name.kind == .name (some .awaitWord) && context.allowAwait)
  if ← eat .assign then
    discard g.value
    let start := name.span.start
    modify fun cursor => { cursor with openCovers := start :: cursor.openCovers }
    return .entry key (.assignment (← spanFrom start)) true
  else return .entry key (.identifier name.text name.span) true

def literalProperty : Parser Property := do
  if ← eat .ellipsis then return .spread (← g.value)
  let words ← modifiers
  if (← eatModifier .getWord) || (← eatModifier .setWord) then
    let key ← propertyKey g
    return .entry key (← literalMethod g false false) false
  let yields ← eat .star
  let first ← token
  let key ← propertyKey g
  if yields || (← atMark .openParen) || (← atMark .less) then
    flawIf (words.any (· != .asyncWord))
    return .entry key (← literalMethod g (words.contains .asyncWord) yields) false
  flawIf !words.isEmpty
  if isBindingName first && !(← atMark .colon) then shorthandProperty g first key
  else
    expect .colon
    return .entry key (← g.value) true

def objectLiteral : Parser Expr := do
  let start ← position
  expect .openBrace
  let properties ← withReader (fun c => { c with allowIn := true, allowIndex := true })
    (commaList .closeBrace (literalProperty g))
  expect .closeBrace
  return .object properties (← spanFrom start)

def arguments : Parser Unit := do
  expect .openParen
  discard <| withReader (fun c => { c with allowIn := true, allowIndex := true })
    (commaList .closeParen do
      discard <| eat .ellipsis
      discard g.value)
  expect .closeParen

def importExpression : Parser Expr := do
  let start ← position
  expectWord .importWord
  if ← eat .dot then
    if ← eatWord .metaWord then return .other (← spanFrom start)
    if !((← eatWord .deferWord) || (← eatWord .sourceWord)) then failure
  expect .openParen
  discard <| withReader (fun c => { c with allowIn := true }) do
    discard g.value
    if (← eat .comma) && !(← atMark .closeParen) then
      discard g.value
      discard <| eat .comma
  expect .closeParen
  return .other (← spanFrom start)

def newExpression : Parser Expr := do
  let start ← position
  expectWord .newWord
  if ← eat .dot then
    expectWord .targetWord
  else
    flawIf ((← atWord .importWord) && (← nextToken).is .openParen)
    discard g.constructed
    flawIf (← atMark .questionDot)
    if ← atMark .openParen then arguments g
  return .other (← spanFrom start)

def classExpression : Parser Expr := do
  let start ← position
  decorators g
  discard <| classTail g
  return .other (← spanFrom start)

def primary : Parser Expr := do
  if ← atFunction then return ← functionExpression g
  let token ← token
  match token.kind with
  | .string =>
      advance
      return .string token.text token.span
  | .number radix =>
      advance
      return .number (numberValue? radix token.text) token.span
  | .bigint =>
      advance
      return .other token.span
  | .templateWhole | .templateHead => templateLiteral g false
  | .punctuator .slash | .punctuator .slashAssign =>
      rescanPattern
      advance
      return .other (← spanFrom token.span.start)
  | .punctuator .openParen => parenthesized g
  | .punctuator .openBracket => arrayLiteral g
  | .punctuator .openBrace => objectLiteral g
  | .punctuator .atSign | .name (some .classWord) => classExpression g
  | .name (some .trueWord) =>
      advance
      return .boolean true token.span
  | .name (some .falseWord) =>
      advance
      return .boolean false token.span
  | .name (some .nullWord) =>
      advance
      return .null token.span
  | .name (some .thisWord) =>
      advance
      return .other token.span
  | .name (some .superWord) =>
      advance
      flawIf !((← atMark .dot) || (← atMark .openBracket) || (← atMark .openParen))
      return .other token.span
  | .name (some .newWord) => newExpression g
  | .name (some .importWord) => importExpression g
  | .name _ => return .identifier (← variableName) token.span
  | _ => failure

/-! ## Members and calls -/

def precedence? (token : Token) : Option Nat :=
  match token.kind with
  | .punctuator mark =>
      match mark with
      | .coalesce => some 1
      | .logicalOr => some 2
      | .logicalAnd => some 3
      | .bar => some 4
      | .caret => some 5
      | .ampersand => some 6
      | .equal | .notEqual | .strictEqual | .strictNotEqual => some 7
      | .less | .greater | .lessEqual | .greaterEqual => some 8
      | .shiftLeft | .shiftRight | .shiftRightZero => some 9
      | .plus | .minus => some 10
      | .star | .slash | .percent => some 11
      | .power => some 12
      | _ => none
  | .name (some word) =>
      match word with
      | .instanceofWord | .inWord | .asWord | .satisfiesWord => some 8
      | _ => none
  | _ => none

def startsExpression (token : Token) : Bool :=
  match token.kind with
  | .string | .number _ | .bigint | .regex | .templateWhole | .templateHead | .privateName => true
  | .name none => true
  | .name (some word) =>
      !word.isReserved || [.thisWord, .superWord, .nullWord, .trueWord, .falseWord,
        .functionWord, .classWord, .newWord, .deleteWord, .typeofWord, .voidWord, .awaitWord,
        .yieldWord, .importWord].contains word
  | .punctuator mark =>
      [.openParen, .openBracket, .openBrace, .slash, .slashAssign, .plus, .minus, .tilde, .bang,
        .increment, .decrement, .less, .atSign].contains mark
  | _ => false

/-- Whether type arguments can end in front of the token, rather than be a
comparison. -/
def endsTypeArguments (token : Token) : Bool :=
  match token.kind with
  | .punctuator .openParen | .templateWhole | .templateHead => true
  | .punctuator .less | .punctuator .greater | .punctuator .plus | .punctuator .minus => false
  | _ => token.onNewLine || (precedence? token).isSome || !startsExpression token

def expressionTypeArguments : Parser Unit := do
  rescanLess
  expect .less
  let arguments ← commaList .greater g.type
  if (Punctuator.scanBehindGreater (← get).rest).1 == .greaterEqual then failure
  expect .greater
  flawIf arguments.isEmpty
  if !endsTypeArguments (← token) then failure

structure Operand where
  expr : Expr
  chained : Bool := false
  callee : Option Expr := none

def Operand.close (operand : Operand) : Expr :=
  if operand.chained then .other operand.expr.span else operand.expr

def index : Parser Unit := do
  expect .openBracket
  discard <| innerExpression g
  expect .closeBracket

def memberName : Parser Unit := do
  if (← token).kind == .privateName then advance else discard anyName

/-- A member, a mark or a template behind an operand.  `chains` allows `?.`. -/
def memberStep (chains : Bool) (start : Nat) (operand : Operand) : Parser (Option Operand) := do
  let token ← token
  let context ← read
  let member (chained : Bool) : Parser (Option Operand) := do
    return some { expr := .member (← spanFrom start), chained := operand.chained || chained }
  match token.kind with
  | .punctuator .dot =>
      advance
      memberName
      member false
  | .punctuator .openBracket =>
      if !context.allowIndex then return none
      index g
      member false
  | .punctuator .questionDot =>
      if !chains then return none
      let next ← nextToken
      if next.is .openBracket then
        advance
        index g
        member true
      else if isWord next || next.kind == .privateName then
        advance
        memberName
        member true
      else return none
  | .punctuator .bang =>
      if token.onNewLine || !context.typed then return none
      advance
      let expr := .annotated operand.expr (← spanFrom start)
      return some { operand with expr, callee := none }
  | .templateWhole | .templateHead =>
      flawIf operand.chained
      discard <| templateLiteral g true
      return some { operand with expr := .other (← spanFrom start), callee := none }
  | .punctuator .less | .punctuator .shiftLeft =>
      if !context.typed then return none
      match ← attempt (expressionTypeArguments g) with
      | none => return none
      | some _ =>
          return some
            { operand with expr := .other (← spanFrom start), callee := some operand.expr }
  | _ => return none

def callStep (start : Nat) (operand : Operand) : Parser (Option Operand) := do
  if ← eat .questionDot then
    discard <| attempt (expressionTypeArguments g)
    arguments g
    return some { expr := .other (← spanFrom start), chained := true }
  else if ← atMark .openParen then
    arguments g
    let callee := operand.callee.getD operand.expr
    return some { operand with expr := .call callee (← spanFrom start), callee := none }
  else return none

def leftHandSide : Parser Expr := do
  let start ← position
  let first ← primary g
  let operand ← extend
    (fun operand => do
      match ← memberStep g true start operand with
      | some next => return some next
      | none => callStep g start operand)
    { expr := first : Operand }
  return operand.close

def constructed : Parser Expr := do
  let start ← position
  let first ← primary g
  let operand ← extend (memberStep g false start) { expr := first : Operand }
  return operand.close

/-! ## Operators -/

def continuesLine (token : Token) : Bool :=
  !token.onNewLine && (isWord token || isLiteral token)

def atAwait : Parser Bool := do
  if !(← atWord .awaitWord) then return false
  if (← read).allowAwait then return true
  return continuesLine (← nextToken)

def isUnaryOperator (token : Token) : Bool :=
  match token.kind with
  | .punctuator mark => [.plus, .minus, .tilde, .bang].contains mark
  | .name (some word) => [.deleteWord, .typeofWord, .voidWord].contains word
  | _ => false

def counted : Parser Expr := do
  let start ← position
  if (← eat .increment) || (← eat .decrement) then
    let target ← g.operand
    if !target.isSimpleTarget then failure
    return .other (← spanFrom start)
  let operand ← leftHandSide g
  let token ← token
  if (token.is .increment || token.is .decrement) && !token.onNewLine then
    if !operand.isSimpleTarget then failure
    advance
    return .other (← spanFrom start)
  return operand

def operand : Parser Expr := do
  let start ← position
  let token ← token
  let context ← read
  if isUnaryOperator token then
    advance
    discard g.operand
    flawIf (← atMark .power)
    return .other (← spanFrom start)
  else if token.is .less then
    if context.markup then
      g.element false
      return .other (← spanFrom start)
    else
      needsTypes
      advance
      discard g.type
      expect .greater
      let inner ← g.operand
      return .annotated inner (← spanFrom start)
  else if ← atAwait then
    flawIf !context.allowAwait
    advance
    discard <| withReader (fun c => { c with allowAwait := true }) g.operand
    flawIf (← atMark .power)
    return .other (← spanFrom start)
  else counted g

def mixesLogical (coalesces : Bool) : Expr → Bool
  | .logical other _ => coalesces != other
  | _ => false

def operationStep (level start : Nat) (left : Expr) : Parser (Option Expr) := do
  rescanGreater
  let token ← token
  match precedence? token with
  | none => return none
  | some own =>
      -- powers group to the right
      if own < level || (own == level && !token.is .power) then return none
      if token.isKeyword .inWord && !(← read).allowIn then return none
      if token.isKeyword .asWord || token.isKeyword .satisfiesWord then
        if token.onNewLine then return none
        needsTypes
        advance
        discard g.type
        let span ← spanFrom start
        return some (if token.isKeyword .asWord then .cast left span else .annotated left span)
      advance
      let right ← g.operation own
      let span ← spanFrom start
      if token.is .coalesce || token.is .logicalOr || token.is .logicalAnd then
        let coalesces := token.is .coalesce
        flawIf (mixesLogical coalesces left || mixesLogical coalesces right)
        return some (.logical coalesces span)
      else return some (.other span)

def operation (level : Nat) : Parser Expr := do
  let start ← position
  let first ←
    if (← token).kind == .privateName then do
      advance
      if !(← atWord .inWord) then failure
      pure (Expr.other (← spanFrom start))
    else operand g
  extend (operationStep g level start) first

def atYield : Parser Bool := do
  if !(← atWord .yieldWord) then return false
  if (← read).allowYield then return true
  return continuesLine (← nextToken)

def yieldExpression : Parser Expr := do
  let start ← position
  flawIf !(← read).allowYield
  advance
  let token ← token
  if !token.onNewLine then
    if ← eat .star then discard g.value
    else if startsExpression token then discard g.value
  return .other (← spanFrom start)

def isCompoundAssignment (token : Token) : Bool :=
  match token.kind with
  | .punctuator mark =>
      [.plusAssign, .minusAssign, .starAssign, .slashAssign, .percentAssign, .powerAssign,
        .shiftLeftAssign, .shiftRightAssign, .shiftRightZeroAssign, .andAssign, .orAssign,
        .xorAssign, .logicalAndAssign, .logicalOrAssign, .coalesceAssign].contains mark
  | _ => false

def asPattern (target : Expr) : Parser Unit := do
  if !target.isTarget then failure
  let settled := target.defaultStarts
  modify fun cursor =>
    { cursor with openCovers := cursor.openCovers.filter fun start => !settled.contains start }

def assignmentTail (resultAllowed : Bool) (start : Nat) (left : Expr) : Parser Expr := do
  let token ← token
  if token.is .assign then
    asPattern left
    advance
    discard <| g.assignment resultAllowed
    return .assignment (← spanFrom start)
  else if isCompoundAssignment token then
    if !left.isSimpleTarget then failure
    advance
    discard <| g.assignment resultAllowed
    return .other (← spanFrom start)
  else if token.is .question then
    advance
    discard <| withReader (fun c => { c with allowIn := true }) (g.assignment false)
    expect .colon
    discard <| g.assignment resultAllowed
    return .other (← spanFrom start)
  else return left

def assignment (resultAllowed : Bool) : Parser Expr := do
  if ← atYield then return ← yieldExpression g
  if let some function ← parenthesizedArrow? g resultAllowed then return function
  if ← atAsyncArrow then return ← asyncArrow g resultAllowed
  let start ← position
  let left ← g.operation 0
  match left with
  | .identifier _ _ =>
      if ← atMark .arrow then
        arrow
        arrowBody g false resultAllowed
        return .other (← spanFrom start)
      else assignmentTail g resultAllowed start left
  | _ => assignmentTail g resultAllowed start left

end ComponentDocs.Script.Parser
