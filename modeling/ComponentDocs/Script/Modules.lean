import ComponentDocs.Script.Declarations

/-!
The grammar of imports and exports.
-/

namespace ComponentDocs.Script.Parser

variable (g : Grammar)

def isModuleName (token : Token) : Bool :=
  isWord token || token.kind == .string

def moduleName : Parser Token := do
  let token ← token
  if isModuleName token then
    advance
    return token
  else failure

def renamed (name : Token) : Parser (Token × Token) := do
  if ← eatWord .asWord then return (name, ← moduleName) else return (name, name)

/-- What follows the word `type` in a list of names.  The word may be a name
itself, and so may the word `as` behind it. -/
def typeSpecifier (first : Token) : Parser (Token × Token) := do
  if ← atWord .asWord then
    let firstAs ← moduleName
    if ← atWord .asWord then
      let secondAs ← moduleName
      if isModuleName (← token) then return (firstAs, ← moduleName)
      else return (first, secondAs)
    else if isModuleName (← token) then return (first, ← moduleName)
    else return (firstAs, firstAs)
  else if isModuleName (← token) then
    needsTypes
    renamed (← moduleName)
  else return (first, first)

def specifier : Parser (Token × Token) := do
  let first ← moduleName
  if first.isKeyword .typeWord then typeSpecifier first else renamed first

def specifiers : Parser (List (Token × Token)) := do
  expect .openBrace
  let items ← commaList .closeBrace specifier
  expect .closeBrace
  return items

def importAttributes : Parser Unit := do
  let token ← token
  if token.isKeyword .withWord || (token.isKeyword .assertWord && !token.onNewLine) then
    advance
    expect .openBrace
    discard <| commaList .closeBrace do
      discard moduleName
      expect .colon
      discard stringLiteral
    expect .closeBrace

def sourceClause : Parser Text := do
  expectWord .fromWord
  let source ← stringLiteral
  importAttributes
  return source

def importClause : Parser (List ImportedName) := do
  if ← eat .star then
    expectWord .asWord
    let name ← variableName
    return [⟨name, name⟩]
  else
    let items ← specifiers
    flawIf (items.any fun (_, bound) => !isBindingName bound)
    return items.map fun (imported, bound) => ⟨imported.text, bound.text⟩

/-- Whether the word `type` behind `import` makes the import one of types.  The word
may also be the name of the default import. -/
def atTypeImport : Parser Bool := do
  if !(← atWord .typeWord) then return false
  isAhead do
    advance
    let token ← token
    let next ← nextToken
    if token.is .star || token.is .openBrace then return true
    if !isPlainName token then return false
    return !token.isKeyword .fromWord || next.isKeyword .fromWord || next.is .assign

def atPhase : Parser Bool := do
  let token ← token
  let next ← nextToken
  if token.isKeyword .deferWord then return next.is .star
  return token.isKeyword .sourceWord && isPlainName next && !next.isKeyword .fromWord

def importForm : Parser Form := do
  if (← token).kind == .string then
    let source ← stringLiteral
    importAttributes
    endStatement
    return .imports source false []
  let typeOnly ← atTypeImport
  if typeOnly then needsTypes
  if typeOnly || (← atPhase) then advance
  let default ← if isPlainName (← token) then some <$> variableName else pure none
  if default.isSome && !(← atMark .comma) && !(← atWord .fromWord) then aliasedImport
  else
    let others ← if default.isNone || (← eat .comma) then importClause else pure []
    let source ← sourceClause
    endStatement
    return .imports source typeOnly ((default.toList.map fun name => ⟨name, name⟩) ++ others)

def importStatement : Parser Statement := do
  let start ← position
  expectWord .importWord
  let form ← importForm
  let span ← spanFrom start
  return { span, declarationSpan := span, form }

def isExportable (token : Token) : Bool :=
  match token.kind with
  | .name none => true
  | .name (some word) => !word.isReserved && !word.isStrictReserved
  | _ => false

def exportList : Parser Form := do
  let items ← specifiers
  let source ← if ← atWord .fromWord then some <$> sourceClause else pure none
  flawIf (source.isNone && items.any fun (name, _) => !isExportable name)
  endStatement
  return .exportList source (items.map fun (_, exported) => exported.text)

def exportAll : Parser Form := do
  expect .star
  let name ← if ← eatWord .asWord then (fun token => some token.text) <$> moduleName else pure none
  let source ← sourceClause
  endStatement
  return .exportAll source name

def defaultExport : Parser (Form × Span) := do
  let start ← position
  let next ← nextToken
  if ← atFunction then
    let waits ← eatWord .asyncWord
    let form ← functionDeclaration g waits true false
    return (form, ← spanFrom start)
  else if (← atMark .atSign) || (← atWord .classWord) ||
      ((← atWord .abstractWord) && next.isKeyword .classWord) then
    decorators g
    discard modifiers
    let form ← classDeclaration g true
    return (form, ← spanFrom start)
  else if (← read).typed && (← atWord .interfaceWord) && isPlainName next && !next.onNewLine then
    let form ← interfaceDeclaration g
    return (form, ← spanFrom start)
  else
    let value ← g.valueWithIn
    endStatement
    return (.defaultExpression, value.span)

def exportStatement : Parser Statement := do
  let start ← position
  expectWord .exportWord
  let plain (form : Form) : Parser Statement := do
    let span ← spanFrom start
    return { span, declarationSpan := span, form }
  let next ← nextToken
  if ← eatWord .defaultWord then
    let (form, declarationSpan) ← defaultExport g
    return { span := ← spanFrom start, declarationSpan, exported := true, isDefault := true, form }
  else if ← atMark .openBrace then plain (← exportList)
  else if ← atMark .star then plain (← exportAll)
  else if ← eat .assign then
    needsTypes
    discard g.value
    endStatement
    plain .unsupported
  else if (← atWord .asWord) && next.isKeyword .namespaceWord then
    needsTypes
    advance
    advance
    discard anyName
    endStatement
    plain .unsupported
  else if (← atWord .typeWord) && (next.is .openBrace || next.is .star) then
    needsTypes
    advance
    plain (← if ← atMark .openBrace then exportList else exportAll)
  else
    let (form, declarationSpan) ← declaration g
    return { span := ← spanFrom start, declarationSpan, exported := true, form }

end ComponentDocs.Script.Parser
