import ComponentDocs.Script.Types

/-!
The grammar of what declarations bind: names, object patterns and array patterns.
-/

namespace ComponentDocs.Script.Parser

variable (g : Grammar)

def fallback? : Parser (Option Expr) := do
  if ← eat .assign then some <$> g.valueWithIn else return none

def bindingElement : Parser (Option Expr) := do
  discard g.binding
  if (← read).typed then discard <| eat .question
  discard <| declaredType? g
  fallback? g

def bindingRest : Parser Unit := do
  expect .ellipsis
  discard g.binding
  discard <| declaredType? g
  if ← eat .assign then
    discard g.valueWithIn
    flaw

def bindingProperty : Parser BindingProperty := do
  let isName := isBindingName (← token)
  let key ← propertyKey g
  if isName && !(← atMark .colon) then return ⟨key, ← fallback? g⟩
  else
    expect .colon
    return ⟨key, ← bindingElement g⟩

def objectBinding : Parser Binding := do
  expect .openBrace
  let properties ← collect do
    if (← atMark .closeBrace) || (← atMark .ellipsis) then return none
    let property ← bindingProperty g
    if !(← atMark .closeBrace) then expect .comma
    return some property
  if ← atMark .ellipsis then bindingRest g
  expect .closeBrace
  return .object properties

def arrayBinding : Parser Binding := do
  expect .openBracket
  discard <| collect do
    if (← atMark .closeBracket) || (← atMark .ellipsis) then return none
    if !(← atMark .comma) then discard <| bindingElement g
    if !(← atMark .closeBracket) then expect .comma
    return some ()
  if ← atMark .ellipsis then bindingRest g
  expect .closeBracket
  return .array

def anyBinding : Parser Binding := do
  let token ← token
  if token.is .openBrace then objectBinding g
  else if token.is .openBracket then arrayBinding g
  else return .name (← variableName)

end ComponentDocs.Script.Parser
