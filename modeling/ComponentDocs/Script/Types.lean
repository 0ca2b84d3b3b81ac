import ComponentDocs.Script.Grammar

/-!
The grammar of types.
-/

namespace ComponentDocs.Script.Parser

variable (g : Grammar)

def typeArguments : Parser Unit := do
  rescanLess
  expect .less
  let arguments ← commaList .greater g.type
  expect .greater
  flawIf arguments.isEmpty

def optionalTypeArguments : Parser Unit := do
  let token ← token
  if !token.onNewLine && (token.is .less || token.is .shiftLeft) then typeArguments g

def typeParameterModifier : Parser (Option Unit) := do
  if ← atWord .constWord then
    advance
    return some ()
  else if ((← atWord .inWord) || (← atWord .outWord)) && isWord (← nextToken) then
    advance
    return some ()
  else return none

def typeParameter : Parser Unit := do
  discard <| collect typeParameterModifier
  discard variableName
  if ← eatWord .extendsWord then discard g.type
  if ← eat .assign then discard g.type

def typeParameters : Parser (Option Span) := do
  if ← atMark .less then
    let start ← position
    needsTypes
    advance
    let parameters ← commaList .greater (typeParameter g)
    expect .greater
    flawIf parameters.isEmpty
    return some (← spanFrom start)
  else return none

def declaredType? : Parser (Option TypeNode) := do
  if ← atMark .colon then
    needsTypes
    advance
    return some (← g.type)
  else return none

/-- The parameter of which a result type says something, and the word behind it. -/
def predicateSubject : Parser Unit := do
  discard variableName
  let token ← token
  if token.onNewLine then failure
  expectWord .isWord

def resultType : Parser TypeNode := do
  let start ← position
  let predicate ← attempt predicateSubject
  let result ← g.type
  if predicate.isSome then return .other (← spanFrom start) else return result

def result? : Parser (Option TypeNode) := do
  if ← atMark .colon then
    needsTypes
    advance
    return some (← resultType g)
  else return none

/-- Whether the parameters in parentheses start with `this`.  An arrow function and a
constructor are not called on a receiver. -/
def atReceiver : Parser Bool := do
  return (← read).typed && (← atMark .openParen) && (← nextToken).isKeyword .thisWord

def receiver : Parser (Option Span) := do
  if (← read).typed && (← atWord .thisWord) then
    let start ← position
    advance
    discard <| declaredType? g
    let span ← spanFrom start
    if !(← atMark .closeParen) then expect .comma
    return some span
  else return none

def decorators : Parser Unit :=
  discard <| collect do
    if ← eat .atSign then
      discard <| withReader (fun c => { c with allowIndex := false, allowAwait := false })
        g.leftHandSide
      return some ()
    else return none

def parameter : Parser Parameter := do
  let start ← position
  decorators g
  discard modifiers
  let binding ← g.binding
  let optional ← eat .question
  if optional then needsTypes
  let declaredType ← declaredType? g
  let fallback ← if ← eat .assign then some <$> g.valueWithIn else pure none
  return .mk (← spanFrom start) binding optional declaredType fallback

def restParameter : Parser Parameter := do
  let start ← position
  expect .ellipsis
  let binding ← g.binding
  let optional ← eat .question
  let declaredType ← declaredType? g
  if ← eat .assign then
    discard g.valueWithIn
    flaw
  return .mk (← spanFrom start) binding optional declaredType none

def parameters : Parser (Option Span × List Parameter × Option Parameter) := do
  expect .openParen
  let receiver ← receiver g
  let plain ← collect do
    if (← atMark .closeParen) || (← atMark .ellipsis) then return none
    let item ← parameter g
    if !(← atMark .closeParen) then expect .comma
    return some item
  let rest ← if ← atMark .ellipsis then some <$> restParameter g else pure none
  expect .closeParen
  return (receiver, plain, rest)

/-! ## Members -/

def endMember : Parser Unit := do
  if !(← eat .comma) then discard <| eat .semicolon

def modifiesName (token next : Token) : Bool :=
  match token.kind with
  | .name (some word) => isModifier word && !word.isReserved && isPlainName next
  | _ => false

/-- Whether the key of an index signature stands behind its bracket. -/
def atIndexKey : Parser Bool := do
  let first ← token
  if first.is .ellipsis || first.is .closeBracket || modifiesName first (← nextToken) then
    return true
  if !isPlainName first then return false
  advance
  if (← atMark .colon) || (← atMark .comma) then return true
  if !(← eat .question) then return false
  return (← atMark .colon) || (← atMark .comma) || (← atMark .closeBracket)

def atIndexSignature : Parser Bool := do
  if !(← atMark .openBracket) then return false
  isAhead do
    advance
    atIndexKey

def indexSignature : Parser Unit := do
  expect .openBracket
  let keys ← commaList .closeBracket do
    discard anyName
    if (← declaredType? g).isNone then failure
  flawIf (keys.length != 1)
  expect .closeBracket
  if (← declaredType? g).isNone then failure

def signature (constructs : Bool) : Parser Signature := do
  let typeParameters ← typeParameters g
  flawIf (constructs && (← atReceiver))
  let (receiver, parameters, rest) ← parameters g
  let result ← result? g
  return ⟨⟨typeParameters, receiver⟩, parameters, rest, result⟩

def accessorMember (getter : Bool) : Parser (Span → Member) := do
  let key ← propertyKey g
  let signature ← signature g false
  flawIf (if getter then !signature.parameters.isEmpty
    else signature.parameters.length != 1 || signature.result.isSome)
  return fun span => .method span (if getter then .getter else .setter) key false signature.head
    signature.parameters signature.rest signature.result

def keyedMember (readonly : Bool) : Parser (Span → Member) := do
  let key ← propertyKey g
  let optional ← eat .question
  if (← atMark .openParen) || (← atMark .less) then
    let signature ← signature g false
    flawIf readonly
    return fun span => .method span .plain key optional signature.head signature.parameters
      signature.rest signature.result
  else
    let declaredType ← declaredType? g
    return fun span => .property span key readonly optional declaredType

def bareMember : Parser (Span → Member) := do
  if (← atMark .openParen) || (← atMark .less) then
    discard <| signature g false
    return .other
  let next ← nextToken
  if (← atWord .newWord) && (next.is .openParen || next.is .less) then
    advance
    discard <| signature g true
    return .other
  let words ← modifiers
  flawIf (words.any (· != .readonlyWord))
  if ← eatModifier .getWord then accessorMember g true
  else if ← eatModifier .setWord then accessorMember g false
  else if ← atIndexSignature then
    indexSignature g
    return .other
  else keyedMember g !words.isEmpty

/-- The separator belongs to the span of a member. -/
def typeMember : Parser Member := do
  let start ← position
  let member ← bareMember g
  endMember
  return member (← spanFrom start)

def typeMembers : Parser (List Member) := do
  expect .openBrace
  let members ← collect do
    if ← atMark .closeBrace then return none
    return some (← typeMember g)
  expect .closeBrace
  return members

/-! ## Types without operators -/

def startsType (token : Token) : Bool :=
  match token.kind with
  | .string | .number _ | .bigint | .templateWhole | .templateHead => true
  | .name (some word) =>
      !word.isReserved || [.voidWord, .nullWord, .thisWord, .typeofWord, .newWord, .trueWord,
        .falseWord, .importWord, .functionWord].contains word
  | .name none => true
  | .punctuator mark =>
      [.openBrace, .openBracket, .openParen, .less, .bar, .ampersand, .star, .question, .bang,
        .ellipsis, .minus].contains mark
  | _ => false

def qualifiedName : Parser Unit := do
  discard anyName
  discard <| collect do
    if ← eat .dot then
      if (← token).kind == .privateName then advance else discard anyName
      return some ()
    else return none

def typeReference : Parser TypeNode := do
  let start ← position
  qualifiedName
  optionalTypeArguments g
  return .other (← spanFrom start)

def importOptions : Parser Unit := do
  if (← eat .comma) && !(← atMark .closeParen) then
    discard g.value
    discard <| eat .comma

def importedType : Parser TypeNode := do
  let start ← position
  discard <| eatWord .typeofWord
  expectWord .importWord
  expect .openParen
  discard g.type
  importOptions g
  expect .closeParen
  if ← eat .dot then qualifiedName
  optionalTypeArguments g
  return .other (← spanFrom start)

def queriedType : Parser TypeNode := do
  let start ← position
  if (← nextToken).isKeyword .importWord then importedType g
  else
    advance
    qualifiedName
    optionalTypeArguments g
    return .other (← spanFrom start)

/-- The substitutions of a template, behind its head, and its tail.  Escapes have to
mean something unless a function reads the template raw. -/
def substitutions (raw : Bool) (inner : Parser Unit) : Parser Unit := do
  discard <| collect do
    match (← token).kind with
    | .templateTail =>
        return none
    | .templateMiddle =>
        advance
    | _ => pure ()
    inner
    rescanTemplate
    flawIf (!raw && !(← token).sound)
    return some ()
  advance

def templateType : Parser TypeNode := do
  let start ← position
  let isHead := (← token).kind == .templateHead
  flawIf !(← token).sound
  advance
  if isHead then substitutions false (discard g.type)
  return .other (← spanFrom start)

def atTupleLabel : Parser Bool :=
  isAhead do
    discard <| eat .ellipsis
    discard anyName
    discard <| eat .question
    atMark .colon

def tupleElement : Parser Unit := do
  if ← atTupleLabel then
    discard <| eat .ellipsis
    discard anyName
    discard <| eat .question
    expect .colon
  discard <| eat .ellipsis
  discard g.type

def tupleType : Parser TypeNode := do
  let start ← position
  expect .openBracket
  discard <| commaList .closeBracket (tupleElement g)
  expect .closeBracket
  return .other (← spanFrom start)

def atMappedType : Parser Bool :=
  isAhead do
    expect .openBrace
    if (← eat .plus) || (← eat .minus) then return ← atWord .readonlyWord
    discard <| eatWord .readonlyWord
    expect .openBracket
    discard anyName
    atWord .inWord

def mappedReadonly : Parser Unit := do
  if (← eat .plus) || (← eat .minus) then expectWord .readonlyWord
  else discard <| eatWord .readonlyWord

def mappedOptional : Parser Unit := do
  if (← eat .plus) || (← eat .minus) then expect .question
  else discard <| eat .question

def mappedType : Parser TypeNode := do
  let start ← position
  expect .openBrace
  mappedReadonly
  expect .openBracket
  discard variableName
  expectWord .inWord
  discard g.type
  if ← eatWord .asWord then discard g.type
  expect .closeBracket
  mappedOptional
  discard <| declaredType? g
  discard <| eat .semicolon
  expect .closeBrace
  return .other (← spanFrom start)

def parenthesizedType : Parser TypeNode := do
  expect .openParen
  let inner ← g.type
  expect .closeParen
  return .parenthesized inner

def tokenType : Parser TypeNode := do
  let start ← position
  advance
  return .other (← spanFrom start)

def thisType : Parser TypeNode := do
  let start ← position
  advance
  if (← atWord .isWord) && !(← token).onNewLine then
    advance
    discard g.type
  return .other (← spanFrom start)

def assertedType : Parser TypeNode := do
  let start ← position
  advance
  if !(← eatWord .thisWord) then discard anyName
  if ← eatWord .isWord then discard g.type
  return .other (← spanFrom start)

def isNumeral (token : Token) : Bool :=
  match token.kind with
  | .number _ | .bigint => true
  | _ => false

def negativeType : Parser TypeNode := do
  let start ← position
  advance
  if !isNumeral (← token) then failure
  advance
  return .other (← spanFrom start)

/-- Whether a question mark in front of the token is a type of its own. -/
def endsUnknownType (token : Token) : Bool :=
  match token.kind with
  | .punctuator mark =>
      [.comma, .closeBrace, .closeParen, .greater, .assign, .bar].contains mark
  | _ => false

/-- Words that are types of their own, without arguments; a dot makes them names of other
types. -/
def isPredefinedType : Keyword → Bool
  | .anyWord | .bigintWord | .booleanWord | .neverWord | .numberWord | .objectWord | .stringWord
  | .symbolWord | .undefinedWord | .unknownWord => true
  | _ => false

def simpleType : Parser TypeNode := do
  let token ← token
  match token.kind with
  | .punctuator .openBrace =>
      if ← atMappedType then mappedType g else return .object (← typeMembers g)
  | .punctuator .openBracket => tupleType g
  | .punctuator .openParen => parenthesizedType g
  | .punctuator .minus => negativeType
  | .punctuator .question =>
      let start ← position
      advance
      if !endsUnknownType (← Parser.token) then discard g.type
      return .other (← spanFrom start)
  | .punctuator .bang =>
      let start ← position
      advance
      discard g.typeOperand
      return .other (← spanFrom start)
  | .string | .number _ | .bigint => tokenType
  | .templateWhole | .templateHead => templateType g
  | .name (some .thisWord) => thisType g
  | .name (some .typeofWord) => queriedType g
  | .name (some .importWord) => importedType g
  | .name (some .voidWord) | .name (some .nullWord) | .name (some .trueWord)
  | .name (some .falseWord) => tokenType
  | .name (some .assertsWord) =>
      let next ← nextToken
      if !next.onNewLine && (isPlainName next || next.isKeyword .thisWord) then assertedType g
      else typeReference g
  | .name word =>
      let next ← nextToken
      if word.any isPredefinedType && !next.is .dot then tokenType else typeReference g
  | _ => failure

def typeSuffix (start : Nat) (type : TypeNode) : Parser (Option TypeNode) := do
  let token ← token
  if token.onNewLine then return none
  match token.kind with
  | .punctuator .bang =>
      advance
      return some (.other (← spanFrom start))
  | .punctuator .question =>
      if startsType (← nextToken) then return none
      advance
      return some (.other (← spanFrom start))
  | .punctuator .openBracket =>
      advance
      if startsType (← Parser.token) then
        discard g.type
        expect .closeBracket
        return some (.other (← spanFrom start))
      else
        expect .closeBracket
        return some (.array type)
  | _ => return none

/-- A type that a condition infers, with a bound unless the bound would start a
condition. -/
def inferredType : Parser TypeNode := do
  let start ← position
  advance
  discard variableName
  discard <| attempt do
    expectWord .extendsWord
    discard <| withReader (fun c => { c with allowConditional := false }) g.type
    if (← read).allowConditional && (← atMark .question) then failure
  return .other (← spanFrom start)

def typeOperand : Parser TypeNode := do
  let start ← position
  match (← token).kind with
  | .name (some .keyofWord) | .name (some .uniqueWord) | .name (some .readonlyWord) =>
      advance
      discard g.typeOperand
      return .other (← spanFrom start)
  | .name (some .inferWord) => inferredType g
  | _ =>
      withReader (fun c => { c with allowConditional := true }) do
        let first ← simpleType g
        extend (typeSuffix g start) first

/-! ## Operators -/

def joinedTypes (mark : Punctuator) (join : List TypeNode → TypeNode) (part : Parser TypeNode) :
    Parser TypeNode := do
  let leading ← eat mark
  let first ← part
  let others ← collect do
    if ← eat mark then return some (← part) else return none
  if leading || !others.isEmpty then return join (first :: others) else return first

def unionType : Parser TypeNode :=
  joinedTypes .bar .union (joinedTypes .ampersand .intersection g.typeOperand)

def skipParameterStart : Parser Bool := do
  discard modifiers
  let token ← token
  if isPlainName token || token.isKeyword .thisWord then
    advance
    return true
  else if token.is .openBracket || token.is .openBrace then
    let flawed := (← get).flawed
    discard g.binding
    return (← get).flawed == flawed
  else return false

def atFunctionParameters : Parser Bool :=
  isAhead do
    expect .openParen
    if (← atMark .closeParen) || (← atMark .ellipsis) then return true
    if ← skipParameterStart g then
      if (← atMark .colon) || (← atMark .comma) || (← atMark .question) || (← atMark .assign) then
        return true
      return (← eat .closeParen) && (← atMark .arrow)
    else return false

def atFunctionType : Parser Bool := do
  let token ← token
  if token.is .less || token.isKeyword .newWord then return true
  else if token.is .openParen then atFunctionParameters g
  else return token.isKeyword .abstractWord && (← nextToken).isKeyword .newWord

def functionType : Parser TypeNode := do
  let start ← position
  discard <| eatWord .abstractWord
  let constructs ← eatWord .newWord
  let typeParameters ← typeParameters g
  flawIf (constructs && (← atReceiver))
  let (receiver, parameters, rest) ← parameters g
  expect .arrow
  let result ← resultType g
  if constructs then return .other (← spanFrom start)
  else return .function ⟨typeParameters, receiver⟩ parameters rest result

def conditionalType (start : Nat) : Parser TypeNode := do
  discard <| withReader (fun c => { c with allowConditional := false }) g.type
  expect .question
  discard <| withReader (fun c => { c with allowConditional := true }) g.type
  expect .colon
  discard <| withReader (fun c => { c with allowConditional := true }) g.type
  return .other (← spanFrom start)

def anyType : Parser TypeNode := do
  if ← atFunctionType g then functionType g
  else
    let start ← position
    let type ← unionType g
    if (← read).allowConditional && !(← token).onNewLine && (← eatWord .extendsWord) then
      conditionalType g start
    else return type

end ComponentDocs.Script.Parser
