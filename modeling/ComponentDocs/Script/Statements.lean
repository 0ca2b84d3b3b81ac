import ComponentDocs.Script.Modules

/-!
The grammar of statements.
-/

namespace ComponentDocs.Script.Parser

variable (g : Grammar)

def plainStatement (start : Nat) : Parser Statement := do
  let span ← spanFrom start
  return { span, declarationSpan := span, form := .unsupported }

def condition : Parser Unit := do
  expect .openParen
  discard <| innerExpression g
  expect .closeParen

def declaresLet (next : Token) : Bool :=
  isBindingName next || next.is .openBracket || next.is .openBrace

/-- Whether the tokens start a declaration that only a list of statements may
contain: variables of a block, a class, or a function that waits or yields. -/
def needsBlock (token next : Token) : Bool :=
  token.isKeyword .classWord || (token.isKeyword .constWord && !next.isKeyword .enumWord) ||
    (token.isKeyword .letWord && declaresLet next && !next.onNewLine) ||
    (token.isKeyword .functionWord && next.is .star) ||
    (token.isKeyword .asyncWord && next.isKeyword .functionWord && !next.onNewLine)

def governed : Parser Unit := do
  flawIf (needsBlock (← token) (← nextToken))
  discard g.statement

def countingLoop : Parser Unit := do
  expect .semicolon
  if !(← atMark .semicolon) then discard <| innerExpression g
  expect .semicolon
  if !(← atMark .closeParen) then discard <| innerExpression g

def loopTail : Parser Unit := do
  if ← eatWord .ofWord then discard g.valueWithIn
  else if ← eatWord .inWord then discard <| innerExpression g
  else countingLoop g

def atLoopDeclaration : Parser Bool := do
  let token ← token
  let next ← nextToken
  return token.isKeyword .varWord || token.isKeyword .constWord ||
    (token.isKeyword .letWord && declaresLet next) ||
    (token.isKeyword .usingWord && isBindingName next && !next.isKeyword .ofWord)

/-- The head of a loop in parentheses.  `waits` says that the loop waits for its
values; one that does not cannot assign them to a variable `async`. -/
def loopHead (waits : Bool) : Parser Unit := do
  if ← atMark .semicolon then countingLoop g
  else if ← atLoopDeclaration then
    let constant ← atWord .constWord
    let (_, declarators) ← withReader (fun c => { c with allowIn := false }) (variableList g true)
    flawIf ((← atMark .semicolon) && declarators.any fun declarator =>
      declarator.init.isNone && needsInit constant declarator.binding)
    loopTail g
  else
    let assignsAsync := (← atWord .asyncWord) && (← nextToken).isKeyword .ofWord
    let first ← withReader (fun c => { c with allowIn := false }) (expression g)
    if (← atWord .ofWord) || (← atWord .inWord) then asPattern first
    flawIf (assignsAsync && !waits && (← atWord .ofWord))
    loopTail g

def forStatement : Parser Unit := do
  expectWord .forWord
  let waits ← eatWord .awaitWord
  flawIf (waits && !(← read).allowAwait)
  expect .openParen
  loopHead g waits
  expect .closeParen
  governed g

def doStatement : Parser Unit := do
  expectWord .doWord
  governed g
  expectWord .whileWord
  condition g
  discard <| eat .semicolon

def whileStatement : Parser Unit := do
  expectWord .whileWord
  condition g
  governed g

def ifStatement : Parser Unit := do
  expectWord .ifWord
  condition g
  governed g
  if ← eatWord .elseWord then governed g

def switchCase : Parser Unit := do
  if ← eatWord .caseWord then discard <| innerExpression g
  else expectWord .defaultWord
  expect .colon
  discard <| collect do
    let token ← token
    if token.isKeyword .caseWord || token.isKeyword .defaultWord || token.is .closeBrace then
      return none
    return some (← g.statement)

def switchStatement : Parser Unit := do
  expectWord .switchWord
  condition g
  expect .openBrace
  discard <| collect do
    if ← atMark .closeBrace then return none
    return some (← switchCase g)
  expect .closeBrace

def tryStatement : Parser Unit := do
  expectWord .tryWord
  bracedStatements g
  let handled ← eatWord .catchWord
  if handled then
    if ← eat .openParen then
      discard g.binding
      discard <| declaredType? g
      expect .closeParen
    bracedStatements g
  if ← eatWord .finallyWord then bracedStatements g
  else if !handled then failure

def jumpStatement : Parser Unit := do
  advance
  let token ← token
  if isPlainName token && !token.onNewLine then advance
  endStatement

def returnStatement : Parser Unit := do
  expectWord .returnWord
  flawIf !(← read).allowReturn
  if !(← atStatementEnd) then discard <| innerExpression g
  endStatement

def throwStatement : Parser Unit := do
  expectWord .throwWord
  flawIf (← token).onNewLine
  discard <| innerExpression g
  endStatement

def expressionStatement : Parser Unit := do
  match ← innerExpression g with
  | .identifier _ _ => if ← eat .colon then governed g else endStatement
  | _ => endStatement

def declarationStatement : Parser Statement := do
  let start ← position
  let (form, span) ← declaration g
  return { span := ⟨start, span.stop⟩, declarationSpan := ⟨start, span.stop⟩, form }

/-- Decorators, and the class or exported class that they decorate.  They are no
part of an export. -/
def decoratedStatement : Parser Statement := do
  let start ← position
  decorators g
  if ← atWord .exportWord then exportStatement g
  else
    let (form, span) ← declaration g
    return { span := ⟨start, span.stop⟩, declarationSpan := ⟨start, span.stop⟩, form }

def letIsName (next : Token) : Bool :=
  next.is .assign || isCompoundAssignment next || next.is .dot || next.is .openParen ||
    next.is .semicolon || (precedence? next).isSome && !isPlainName next

def governedBy? (word : Keyword) : Option (Parser Unit) :=
  match word with
  | .ifWord => some (ifStatement g)
  | .doWord => some (doStatement g)
  | .whileWord => some (whileStatement g)
  | .forWord => some (forStatement g)
  | .breakWord | .continueWord => some jumpStatement
  | .returnWord => some (returnStatement g)
  | .switchWord => some (switchStatement g)
  | .throwWord => some (throwStatement g)
  | .tryWord => some (tryStatement g)
  | .withWord => some do
      advance
      condition g
      governed g
  | .debuggerWord => some do
      advance
      endStatement
  | _ => none

def atDeclaration (word : Keyword) : Parser Bool := do
  let next ← nextToken
  match word with
  | .varWord | .constWord | .classWord | .functionWord => return true
  | .letWord => return !letIsName next
  | .usingWord => return isBindingName next && !next.onNewLine
  | .awaitWord =>
      return next.isKeyword .usingWord && !next.onNewLine && (← isAhead do
        advance
        let name ← nextToken
        return isBindingName name && !name.onNewLine)
  | _ => return (← atFunction) || (← atTypedDeclaration)

def statement : Parser Statement := do
  let start ← position
  let token ← token
  match token.kind with
  | .punctuator .openBrace =>
      bracedStatements g
      plainStatement start
  | .punctuator .semicolon =>
      advance
      plainStatement start
  | .punctuator .atSign => decoratedStatement g
  | .name (some word) =>
      let next ← nextToken
      if token.escaped then
        expressionStatement g
        plainStatement start
      else if let some reader := governedBy? g word then
        reader
        plainStatement start
      else if word == .exportWord then exportStatement g
      else if word == .importWord && !next.is .dot && !next.is .openParen then importStatement
      else if ← atDeclaration word then declarationStatement g
      else
        expressionStatement g
        plainStatement start
  | _ =>
      expressionStatement g
      plainStatement start

end ComponentDocs.Script.Parser
