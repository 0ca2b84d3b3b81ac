import ComponentDocs.Script.Expressions

/-!
The grammar of markup elements inside expressions.
-/

namespace ComponentDocs.Script.Parser

variable (g : Grammar)

def scanContent (text : Text) : TokenKind × Nat :=
  match text with
  | [] => (.endOfSource, 0)
  | '<' :: _ => (.punctuator .less, 1)
  | '\x7b' :: _ => (.punctuator .openBrace, 1)
  | _ =>
      let run := text.takeWhile fun c => c != '<' && c != '\x7b'
      if run.contains '>' || run.contains '\x7d' then (.invalid, run.length)
      else (.markupText, run.length)

def advanceContent : Parser Unit := do
  let cursor ← get
  let stop := cursor.token.span.stop
  let (kind, count) := scanContent cursor.rest
  set { cursor with
    token := { kind, span := ⟨stop, stop + count⟩, spelled := kind.allows_nil }
    rest := cursor.rest.drop count
    previousStop := stop }

def advanceAttribute : Parser Unit := do
  let cursor ← get
  let (_, start, text) := Trivia.skip .code {} cursor.token.span.stop cursor.rest
  match text with
  | c :: behind =>
      if c == '"' || c == '\'' then
        let value := behind.takeWhile (· != c)
        if value.length == behind.length then failure
        set { cursor with
          token := { kind := .string, span := ⟨start, start + value.length + 2⟩, text := value }
          rest := behind.drop (value.length + 1)
          previousStop := cursor.token.span.stop }
      else advance
  | [] => advance

def hyphenatedName : Parser Text := do
  let cursor ← get
  if !isWord cursor.token then failure
  let more := cursor.rest.takeWhile fun c => Text.isNamePart c || c == '-'
  let start := cursor.token.span.start
  let length := cursor.token.span.stop - start + more.length
  set (cursor.rescan cursor.token.kind length (cursor.rest.drop more.length) cursor.token.spelled)
  advance
  return cursor.token.text ++ more

def closeTag (inContent : Bool) : Parser Unit := do
  if !(← atMark .greater) then failure
  if inContent then advanceContent else advance

def elementName : Parser Text := do
  let first ← hyphenatedName
  if ← eat .colon then return first ++ ":" ++ (← hyphenatedName)
  let parts ← collect do
    if ← eat .dot then return some (← hyphenatedName) else return none
  return Text.join "." (first :: parts)

def substitution : Parser Unit := do
  expect .openBrace
  if !(← atMark .closeBrace) then
    discard <| eat .ellipsis
    discard <| innerExpression g
  if !(← atMark .closeBrace) then failure

def attributeValue : Parser Unit := do
  let token ← token
  match token.kind with
  | .string => advance
  | .punctuator .openBrace =>
      substitution g
      advance
  | .punctuator .less => g.element false
  | _ => failure

def attributes : Parser Unit :=
  discard <| collect do
    let token ← token
    if token.is .slash || token.is .greater then return none
    if token.is .openBrace then
      substitution g
      advance
    else
      discard hyphenatedName
      if ← eat .colon then discard hyphenatedName
      if ← atMark .assign then
        advanceAttribute
        attributeValue g
    return some ()

def children : Parser Unit :=
  discard <| collect do
    let token ← token
    match token.kind with
    | .punctuator .less =>
        if (← nextToken).is .slash then return none
        g.element true
    | .punctuator .openBrace =>
        substitution g
        advanceContent
    | .markupText => advanceContent
    | _ => failure
    return some ()

def element (inContent : Bool) : Parser Unit := do
  expect .less
  let name ←
    if ← atMark .greater then pure none
    else
      let name ← elementName
      if (← read).typed then optionalTypeArguments g
      attributes g
      pure (some name)
  if name.isSome && (← eat .slash) then closeTag inContent
  else
    closeTag true
    children g
    expect .less
    expect .slash
    let closing ← if ← atMark .greater then pure none else some <$> elementName
    if closing != name then failure
    closeTag inContent

end ComponentDocs.Script.Parser
