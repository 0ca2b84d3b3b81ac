import ComponentDocs.Script.Bindings

/-!
The grammar of functions and arrow functions.
-/

namespace ComponentDocs.Script.Parser

variable (g : Grammar)

def insideFunction (waits yields : Bool) (context : Context) : Context :=
  { context with
    allowAwait := waits, allowYield := yields, allowReturn := true, allowIn := true,
    allowIndex := true }

def statements : Parser (List Statement) :=
  collect do
    let token ← token
    if token.is .closeBrace || token.kind == .endOfSource then return none
    return some (← g.statement)

def bracedStatements : Parser Unit := do
  expect .openBrace
  discard <| statements g
  expect .closeBrace

def functionBody (waits yields : Bool) : Parser Unit :=
  withReader (insideFunction waits yields) (bracedStatements g)

def functionSignature (waits yields : Bool) : Parser Signature :=
  withReader (fun c => { c with allowAwait := waits, allowYield := yields }) (signature g false)

/-- What follows the name of a function.  Typed scripts may declare a function
without its body, and one that is only declared may not have a body. -/
def functionTail (waits yields declared : Bool) : Parser Signature := do
  let signature ← functionSignature g waits yields
  if ← atMark .openBrace then
    flawIf declared
    functionBody g waits yields
  else
    needsTypes
    endStatement
  return signature

def atFunction : Parser Bool := do
  if ← atWord .functionWord then return true
  let next ← nextToken
  return (← atWord .asyncWord) && next.isKeyword .functionWord && !next.onNewLine

def functionHead : Parser (Bool × Bool) := do
  let waits ← eatWord .asyncWord
  expectWord .functionWord
  let yields ← eat .star
  return (waits, yields)

def functionExpression : Parser Expr := do
  let start ← position
  let (waits, yields) ← functionHead
  if isBindingName (← token) then
    discard <| withReader (fun c => { c with allowAwait := waits, allowYield := yields })
      variableName
  discard <| functionSignature g waits yields
  functionBody g waits yields
  return .other (← spanFrom start)

/-- Whether an arrow function starts here, as far as a look ahead can tell. -/
inductive Likelihood where
  | no
  | maybe
  | yes
  deriving DecidableEq, Repr

def isLiteral (token : Token) : Bool :=
  match token.kind with
  | .string | .number _ | .bigint | .regex | .templateWhole => true
  | .name (some word) => word == .nullWord || word == .trueWord || word == .falseWord
  | _ => false

def parenthesisLikelihood : Parser Likelihood := do
  let second ← token
  if second.is .closeParen then
    advance
    let third ← token
    if third.is .colon && (← read).typed then return .maybe
    return if third.is .arrow || third.is .openBrace then .yes else .no
  if second.is .openBracket || second.is .openBrace then return .maybe
  if second.is .ellipsis then
    let third ← nextToken
    return if isPlainName third then .yes else if isLiteral third then .no else .maybe
  let third ← nextToken
  match second.kind with
  | .name (some word) =>
      if isModifier word && word != .asyncWord && isPlainName third then
        return if third.isKeyword .asWord then .no else .yes
  | _ => pure ()
  if !isBindingName second && !second.isKeyword .thisWord then return .no
  if third.is .colon then return .yes
  if third.is .question then
    advance
    let fourth ← nextToken
    return if fourth.is .colon || fourth.is .comma || fourth.is .assign || fourth.is .closeParen
      then .yes else .no
  return if third.is .comma || third.is .assign || third.is .closeParen then .maybe else .no

/-- Look behind an opening angle.  Where markup is possible, only a list of type
parameters that no element could be is taken for one. -/
def angleLikelihood : Parser Likelihood := do
  if !(isPlainName (← token) || (← atWord .constWord)) then return .no
  if !(← read).markup then return .maybe
  discard <| eatWord .constWord
  advance
  let third ← token
  if third.isKeyword .extendsWord then
    let fourth ← nextToken
    return if fourth.is .assign || fourth.is .greater || fourth.is .slash then .no else .yes
  return if third.is .comma || third.is .assign then .yes else .no

def arrowLikelihood : Parser Likelihood := do
  let found ← ahead do
    if ← eatWord .asyncWord then
      if (← token).onNewLine then return .no
    if ← eat .openParen then parenthesisLikelihood
    else if ← eat .less then angleLikelihood
    else return .no
  return found.getD .no

def arrowBody (waits resultAllowed : Bool) : Parser Unit := do
  if ← atMark .openBrace then functionBody g waits false
  else
    discard <| withReader (fun c => { c with allowAwait := waits, allowYield := false })
      (g.assignment resultAllowed)

def arrow : Parser Unit := do
  let token ← token
  if !token.is .arrow then failure
  flawIf token.onNewLine
  advance

def arrowHead : Parser (Bool × Bool) := do
  let waits ← eatWord .asyncWord
  let context ← read
  withReader (fun c => { c with allowAwait := waits || context.allowAwait }) do
    discard <| typeParameters g
    flawIf (← atReceiver)
    discard <| parameters g
    let hasResult ← atMark .colon
    discard <| result? g
    arrow
    return (waits, hasResult)

/-- An arrow function with parameters in parentheses, if one starts here.  In the
middle of a conditional expression a result type counts only if a colon follows
the function. -/
def parenthesizedArrow? (resultAllowed : Bool) : Parser (Option Expr) := do
  let start ← position
  match ← arrowLikelihood with
  | .no => return none
  | .yes =>
      let (waits, _) ← arrowHead g
      arrowBody g waits true
      return some (.other (← spanFrom start))
  | .maybe =>
      let before ← get
      match ← attempt (arrowHead g) with
      | none => return none
      | some (waits, hasResult) =>
          arrowBody g waits resultAllowed
          if !resultAllowed && hasResult && !(← atMark .colon) then
            set before
            return none
          return some (.other (← spanFrom start))

def atAsyncArrow : Parser Bool := do
  if !(← atWord .asyncWord) then return false
  isAhead do
    advance
    let name ← token
    if name.onNewLine || !isBindingName name then return false
    advance
    return (← atMark .arrow) && !(← token).onNewLine

def asyncArrow (resultAllowed : Bool) : Parser Expr := do
  let start ← position
  advance
  discard <| withReader (fun c => { c with allowAwait := true }) variableName
  arrow
  arrowBody g true resultAllowed
  return .other (← spanFrom start)

end ComponentDocs.Script.Parser
