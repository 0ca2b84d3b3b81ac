import ComponentDocs.Script.Cursor
import ComponentDocs.Script.Tree

/-!
The recursive parts of the grammar, and names.

The grammar is written with open recursion: a reader of one construct takes the
readers of the constructs nested in it from a `Grammar`.  `Script.Parse` ties the
knot, with a bound on the depth of nesting.
-/

namespace ComponentDocs.Script

/-- Readers of the constructs that nest in each other. -/
structure Grammar where
  /-- An expression without commas.  The flag allows an arrow function with a
  result type here. -/
  assignment : Bool → Parser Expr
  operation : Nat → Parser Expr
  operand : Parser Expr
  leftHandSide : Parser Expr
  constructed : Parser Expr
  type : Parser TypeNode
  typeOperand : Parser TypeNode
  binding : Parser Binding
  statement : Parser Statement
  /-- A markup element, at its opening angle.  The flag says that it stands inside
  another element, so that content follows it. -/
  element : Bool → Parser Unit

namespace Grammar

def value (g : Grammar) : Parser Expr :=
  g.assignment true

def valueWithIn (g : Grammar) : Parser Expr :=
  withReader (fun c => { c with allowIn := true }) g.value

end Grammar

namespace Parser

def isPlainName (token : Token) : Bool :=
  match token.kind with
  | .name none => true
  | .name (some word) => !word.isReserved
  | _ => false

def isBindingName (token : Token) : Bool :=
  match token.kind with
  | .name none => true
  | .name (some word) => !word.isReserved || word == .awaitWord || word == .yieldWord
  | _ => false

def isWord (token : Token) : Bool :=
  match token.kind with
  | .name _ => true
  | _ => false

def anyName : Parser Text := do
  let token ← token
  if isWord token then
    advance
    return token.text
  else failure

def bindingName (token : Token) (h : isBindingName token = true) : Identifier where
  text := token.text
  spelled := by
    obtain ⟨kind, _, _, _, _, text, spelled⟩ := token
    cases kind with
    | name word => exact spelled
    | _ => contradiction

/-- The name of a variable or type.  `await` and `yield` are names only where they are
no operators. -/
def identifier : Parser Identifier := do
  let token ← token
  if h : isBindingName token = true then
    let context ← read
    flawIf (token.kind == .name (some .awaitWord) && context.allowAwait)
    flawIf (token.kind == .name (some .yieldWord) && context.allowYield)
    advance
    return bindingName token h
  else failure

def variableName : Parser Text := do
  return (← identifier).text

def stringLiteral : Parser Text := do
  let token ← token
  if token.kind == .string then
    advance
    return token.text
  else failure

def startsKey (token : Token) : Bool :=
  match token.kind with
  | .name _ | .string | .number _ | .bigint => true
  | _ => false

def computedKey (g : Grammar) : Parser Expr := do
  expect .openBracket
  let inner ← g.valueWithIn
  expect .closeBracket
  return inner

def propertyKey (g : Grammar) : Parser Key := do
  let token ← token
  match token.kind with
  | .name _ | .string | .bigint =>
      advance
      return .static token.text
  | .number radix =>
      advance
      return .static (numberName (numberValue? radix token.text))
  | .punctuator .openBracket =>
      discard <| computedKey g
      return .computed
  | _ => failure

def isModifier : Keyword → Bool
  | .abstractWord | .accessorWord | .asyncWord | .constWord | .declareWord | .defaultWord
  | .exportWord | .inWord | .outWord | .overrideWord | .privateWord | .protectedWord
  | .publicWord | .readonlyWord | .staticWord => true
  | _ => false

def followsModifier (token : Token) : Bool :=
  startsKey token || token.kind == .privateName || token.is .openBracket ||
    token.is .openBrace || token.is .star || token.is .ellipsis

/-- Whether the word modifies what follows.  `static` in front of a brace opens a block. -/
def modifies (word : Keyword) (next : Token) : Bool :=
  match word with
  | .constWord => next.isKeyword .enumWord
  | .staticWord => followsModifier next && !next.is .openBrace
  | .getWord | .setWord => followsModifier next
  | _ => !next.onNewLine && followsModifier next

def atModifier (word : Keyword) : Parser Bool := do
  return modifies word (← nextToken)

def eatModifier (word : Keyword) : Parser Bool := do
  if (← atWord word) && (← atModifier word) then
    advance
    return true
  else return false

def modifierItem : Parser (Option Keyword) := do
  let token ← token
  match token.kind with
  | .name (some word) =>
      if isModifier word && !token.escaped && (← atModifier word) then
        advance
        return some word
      else return none
  | _ => return none

def modifiers : Parser (List Keyword) :=
  collect modifierItem

end Parser

end ComponentDocs.Script
