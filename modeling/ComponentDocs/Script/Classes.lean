import ComponentDocs.Script.Functions

/-!
The grammar of classes.
-/

namespace ComponentDocs.Script.Parser

variable (g : Grammar)

def commaItems (item : Parser Unit) : Parser Unit := do
  item
  discard <| collect do
    if ← eat .comma then
      item
      return some ()
    else return none

def heritage : Parser Unit :=
  discard <| collect do
    if ← eatWord .extendsWord then
      commaItems do
        discard g.leftHandSide
        optionalTypeArguments g
      return some ()
    else if ← eatWord .implementsWord then
      needsTypes
      commaItems (discard <| typeReference g)
      return some ()
    else return none

def methodTail (waits yields : Bool) : Parser Unit := do
  discard <| functionSignature g waits yields
  if ← atMark .openBrace then functionBody g waits yields
  else
    needsTypes
    endStatement

def fieldTail : Parser Unit := do
  discard <| declaredType? g
  if ← eat .assign then
    discard <| withReader
      (fun c => { c with allowIn := true, allowAwait := false, allowYield := false }) g.value
  endStatement

def constructorName : Key :=
  .static Keyword.constructorWord.spelling

/-- The key of a class member.  A private one has no static name, and is never that
of a constructor. -/
def memberKey : Parser Key := do
  let token ← token
  if token.kind == .privateName then
    flawIf (Key.static token.text == constructorName)
    advance
    return .computed
  else propertyKey g

def constructorTail : Parser Unit := do
  flawIf ((← atMark .less) || (← atReceiver))
  methodTail g false false

def classMember (isStatic waits : Bool) : Parser Unit := do
  let yields ← eat .star
  let key ← memberKey g
  if (← eat .question) || (!(← token).onNewLine && (← eat .bang)) then needsTypes
  if yields || (← atMark .openParen) || (← atMark .less) then
    if key == constructorName && !isStatic then
      flawIf (waits || yields)
      constructorTail g
    else methodTail g waits yields
  else
    flawIf (waits || key == constructorName)
    fieldTail g

def classAccessor (isStatic : Bool) : Parser Unit := do
  let key ← memberKey g
  flawIf (key == constructorName && !isStatic)
  methodTail g false false

def classElement : Parser Unit := do
  decorators g
  let words ← modifiers
  let isStatic := words.contains .staticWord
  flawIf (!(← read).typed &&
    words.any fun word => !List.contains [.staticWord, .asyncWord, .accessorWord] word)
  if (← atWord .staticWord) && (← nextToken).is .openBrace then
    advance
    withReader (fun c => { insideFunction false false c with allowReturn := false })
      (bracedStatements g)
  else if (← eatModifier .getWord) || (← eatModifier .setWord) then classAccessor g isStatic
  else if ← atIndexSignature then
    indexSignature g
    endMember
  else classMember g isStatic (words.contains .asyncWord)

def classTail : Parser (Option Text) := do
  expectWord .classWord
  let token ← token
  let name ←
    if isBindingName token && !token.isKeyword .implementsWord then some <$> variableName
    else pure none
  discard <| typeParameters g
  heritage g
  expect .openBrace
  discard <| collect do
    if ← atMark .closeBrace then return none
    if !(← eat .semicolon) then classElement g
    return some ()
  expect .closeBrace
  return name

end ComponentDocs.Script.Parser
