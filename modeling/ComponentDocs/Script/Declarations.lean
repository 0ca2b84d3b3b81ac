import ComponentDocs.Script.Expressions

/-!
The grammar of declarations.
-/

namespace ComponentDocs.Script.Parser

variable (g : Grammar)

def needsInit (constant : Bool) : Binding → Bool
  | .name _ => constant
  | .object _ | .array => true

/-- One variable of a declaration.  `loop` says that a loop gives it its values. -/
def declarator (constant loop : Bool) : Parser Declarator := do
  let start ← position
  let binding ← g.binding
  let bare ← spanFrom start
  let context ← read
  if context.typed then
    if !(← token).onNewLine then discard <| eat .bang
    discard <| eat .question
  let declaredType ← declaredType? g
  let bindingSpan ← if declaredType.isSome then spanFrom start else pure bare
  let init ← if ← eat .assign then some <$> g.value else pure none
  flawIf (init.isNone && !loop && !context.ambient && needsInit constant binding)
  return ⟨binding, bindingSpan, declaredType, init⟩

def variableList (loop : Bool) : Parser (Bool × List Declarator) := do
  discard <| eatWord .awaitWord
  let isLet ← atWord .letWord
  let constant := !isLet && !(← atWord .varWord)
  advance
  let first ← declarator g constant loop
  let others ← collect do
    if ← eat .comma then return some (← declarator g constant loop) else return none
  return (isLet, first :: others)

def variableDeclaration : Parser Form := do
  let (isLet, declarators) ← variableList g false
  endStatement
  return .bindings isLet declarators

def functionDeclaration (waits nameless declared : Bool) : Parser Form := do
  expectWord .functionWord
  let yields ← eat .star
  let name ←
    if nameless && !isBindingName (← token) then pure none else some <$> variableName
  return .function name (← functionTail g waits yields declared)

def classDeclaration (nameless : Bool) : Parser Form := do
  let name ← classTail g
  if name.isNone && !nameless then failure
  return .classDefinition name

def interfaceDeclaration : Parser Form := do
  expectWord .interfaceWord
  let name ← identifier
  discard <| typeParameters g
  heritage g
  return .struct name true (← typeMembers g)

def aliasDeclaration : Parser Form := do
  expectWord .typeWord
  let name ← identifier
  discard <| typeParameters g
  expect .assign
  let aliased ← g.type
  endStatement
  match aliased with
  | .object members => return .struct name false members
  | _ => return .typeAlias name aliased

/-- The name of an enumeration member.  Brackets may only hold a plain text, and
give no name. -/
def enumMemberName : Parser (Option Text) := do
  let token ← token
  match token.kind with
  | .punctuator .openBracket =>
      match ← computedKey g with
      | .string _ _ | .template false _ => return none
      | _ => failure
  | .string | .name _ =>
      advance
      return some token.text
  | _ => failure

def enumMember : Parser EnumMember := do
  let start ← position
  let name ← enumMemberName g
  let init ← if ← eat .assign then some <$> g.valueWithIn else pure none
  return ⟨← spanFrom start, name, init.map Expr.span⟩

def enumDeclaration : Parser Form := do
  expectWord .enumWord
  let name ← identifier
  expect .openBrace
  let members ← commaList .closeBrace (enumMember g)
  expect .closeBrace
  return .enumeration name members

def namespaceBody : Parser Unit :=
  withReader (fun c => { c with allowReturn := false }) (bracedStatements g)

def namespaceDeclaration : Parser Form := do
  if ← eatWord .globalWord then namespaceBody g
  else
    advance
    if (← token).kind == .string then
      advance
      if ← atMark .openBrace then namespaceBody g else endStatement
    else
      qualifiedName
      namespaceBody g
  return .unsupported

def aliasedImport : Parser Form := do
  needsTypes
  expect .assign
  if (← atWord .requireWord) && (← nextToken).is .openParen then
    advance
    expect .openParen
    discard stringLiteral
    expect .closeParen
  else qualifiedName
  endStatement
  return .unsupported

def declarationForm (words : List Keyword) : Parser Form := do
  let allow (allowed : List Keyword) : Parser Unit :=
    flawIf (words.any fun word => word != .declareWord && !allowed.contains word)
  match (← token).kind with
  | .name (some word) =>
      match word with
      | .varWord | .letWord | .constWord | .usingWord | .awaitWord =>
          allow []
          variableDeclaration g
      | .functionWord =>
          allow [.asyncWord]
          functionDeclaration g (words.contains .asyncWord) false (words.contains .declareWord)
      | .classWord =>
          allow [.abstractWord]
          classDeclaration g false
      | .interfaceWord =>
          needsTypes
          allow []
          interfaceDeclaration g
      | .typeWord =>
          needsTypes
          allow []
          aliasDeclaration g
      | .enumWord =>
          needsTypes
          allow [.constWord]
          enumDeclaration g
      | .namespaceWord | .moduleWord | .globalWord =>
          needsTypes
          allow []
          namespaceDeclaration g
      | .importWord =>
          allow []
          advance
          discard variableName
          aliasedImport
      | _ => failure
  | _ => failure

def declaration : Parser (Form × Span) := do
  let start ← position
  decorators g
  let words ← modifiers
  let ambient := words.contains .declareWord
  flawIf (ambient && !(← read).typed)
  let form ← withReader (fun c => { c with ambient := c.ambient || ambient })
    (declarationForm g words)
  return (form, ← spanFrom start)

def atTypedDeclaration : Parser Bool := do
  if !(← read).typed then return false
  isAhead do
    let words ← modifiers
    let token ← token
    let next ← nextToken
    match token.kind with
    | .name (some word) =>
        match word with
        | .varWord | .letWord | .constWord | .functionWord | .classWord | .importWord =>
            return !words.isEmpty
        | .enumWord => return true
        | .interfaceWord | .typeWord => return isPlainName next && !next.onNewLine
        | .namespaceWord | .moduleWord =>
            return (isPlainName next || next.kind == .string) && !next.onNewLine
        | .globalWord => return next.is .openBrace
        | _ => return false
    | _ => return false

end ComponentDocs.Script.Parser
