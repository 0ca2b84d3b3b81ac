import ComponentDocs.Script.Lexer

/-!
Reading a token stream.

A reader runs under a context, which says what the surrounding grammar allows,
and moves a cursor.  It can fail, and then a caller may try something else from
where it stood; or it can mark the script as flawed and go on, and then nothing
tries anything else but the whole script is refused.
-/

namespace ComponentDocs.Script

structure Context where
  typed : Bool := true
  markup : Bool := false
  ambient : Bool := false
  allowIn : Bool := true
  allowAwait : Bool := true
  allowYield : Bool := false
  allowReturn : Bool := false
  allowConditional : Bool := true
  /-- A bracket goes on with an element access; not so in a decorator. -/
  allowIndex : Bool := true
  /-- More than the number of items that a list of the source can have. -/
  itemBound : Nat

structure Cursor where
  token : Token
  rest : Text
  previousStop : Nat := 0
  flawed : Bool := false
  docs : List (Nat × Text) := []
  /-- Positions of object literals that only an assignment can make sense of. -/
  openCovers : List Nat := []

namespace Cursor

def accept (cursor : Cursor) (lexed : Lexed) : Cursor :=
  { cursor with
    token := lexed.token
    rest := lexed.rest
    docs :=
      match lexed.doc with
      | some doc => (lexed.token.span.start, doc) :: cursor.docs
      | none => cursor.docs }

def advance (cursor : Cursor) : Cursor :=
  let stop := cursor.token.span.stop
  let behindOpener := cursor.token.is .assign || cursor.token.is .openParen
  let moved := { cursor with previousStop := stop }
  moved.accept (Lexed.next { behindOpener } stop cursor.rest)

def start (source : Text) : Cursor :=
  let (position, text) := openSource source
  let cursor : Cursor := { token := default, rest := text, previousStop := position }
  cursor.accept (Lexed.next { onNewLine := true, sawBreak := true } position text)

/-- Read the current token in another way; it becomes `count` characters from its
start. -/
def rescan (cursor : Cursor) (kind : TokenKind) (count : Nat) (rest : Text)
    (spelled : kind.allows cursor.token.text = true := by rfl) : Cursor :=
  let start := cursor.token.span.start
  { cursor with
    token := { cursor.token with kind, span := ⟨start, start + count⟩, spelled }
    rest }

end Cursor

abbrev Parser := ReaderT Context (StateT Cursor Option)

namespace Parser

variable {α : Type}

def token : Parser Token := do
  return (← get).token

def advance : Parser Unit :=
  modify Cursor.advance

def atMark (mark : Punctuator) : Parser Bool := do
  return (← token).is mark

def atWord (word : Keyword) : Parser Bool := do
  return (← token).isKeyword word

def eat (mark : Punctuator) : Parser Bool := do
  if ← atMark mark then
    advance
    return true
  else return false

def eatWord (word : Keyword) : Parser Bool := do
  if ← atWord word then
    advance
    return true
  else return false

def expect (mark : Punctuator) : Parser Unit := do
  if ← atMark mark then advance else failure

def expectWord (word : Keyword) : Parser Unit := do
  if ← atWord word then advance else failure

def position : Parser Nat := do
  return (← token).span.start

def spanFrom (start : Nat) : Parser Span := do
  return ⟨start, (← get).previousStop⟩

def flaw : Parser Unit :=
  modify fun cursor => { cursor with flawed := true }

def flawIf (condition : Bool) : Parser Unit :=
  if condition then flaw else pure ()

def ahead (reader : Parser α) : Parser (Option α) := fun context cursor =>
  some ((reader context cursor).map (·.1), cursor)

def isAhead (reader : Parser Bool) : Parser Bool := do
  return (← ahead reader).getD false

def attempt (reader : Parser α) : Parser (Option α) := fun context cursor =>
  match reader context cursor with
  | some (result, moved) => some (some result, moved)
  | none => some (none, cursor)

def nextToken : Parser Token := do
  return (← get).advance.token

/-- Read items until there are none, up to a bound.  Each item takes at least one
character, so the length of the source bounds their number. -/
def collectFrom (item : Parser (Option α)) : Nat → Parser (List α)
  | 0 => failure
  | fuel + 1 => do
      match ← item with
      | none => return []
      | some value => return value :: (← collectFrom item fuel)

def collect (item : Parser (Option α)) : Parser (List α) := do
  collectFrom item (← read).itemBound

def extendFrom (step : α → Parser (Option α)) : Nat → α → Parser α
  | 0, _ => failure
  | fuel + 1, value => do
      match ← step value with
      | none => return value
      | some next => extendFrom step fuel next

def extend (step : α → Parser (Option α)) (value : α) : Parser α := do
  extendFrom step (← read).itemBound value

/-- Items with commas between them, up to a closing punctuator that is left
standing.  A comma may follow the last one. -/
def commaList (close : Punctuator) (item : Parser α) : Parser (List α) := do
  if ← atMark close then return []
  let first ← item
  let others ← collect do
    if ← atMark close then return none
    expect .comma
    if ← atMark close then return none
    return some (← item)
  return first :: others

def atStatementEnd : Parser Bool := do
  let token ← token
  return token.is .semicolon || token.is .closeBrace || token.kind == .endOfSource ||
    token.onNewLine

def endStatement : Parser Unit := do
  if ← atStatementEnd then
    discard <| eat .semicolon
  else failure

/-- Where an operand is expected, a slash starts a pattern literal. -/
def rescanPattern : Parser Unit := do
  let cursor ← get
  let text := if cursor.token.is .slashAssign then '=' :: cursor.rest else cursor.rest
  match scanPattern text with
  | some count => set (cursor.rescan .regex (count + 1) (text.drop count))
  | none => failure

/-- Behind a substitution, a closing brace goes on with the template. -/
def rescanTemplate : Parser Unit := do
  let cursor ← get
  if !cursor.token.is .closeBrace then failure
  let lexeme := Lexeme.ofTemplate .templateTail .templateMiddle cursor.rest
  let moved := cursor.rescan lexeme.kind lexeme.count (cursor.rest.drop (lexeme.count - 1))
    (Lexeme.ofTemplate_allows _ _)
  set { moved with token := { moved.token with sound := lexeme.sound } }

/-- Where an operator is expected, a greater-than sign may be the start of a longer
one. -/
def rescanGreater : Parser Unit := do
  let cursor ← get
  if cursor.token.is .greater then
    let (mark, count) := Punctuator.scanBehindGreater cursor.rest
    set (cursor.rescan (.punctuator mark) (count + 1) (cursor.rest.drop count))

/-- Where type arguments are expected, only the first angle of a longer operator
counts. -/
def rescanLess : Parser Unit := do
  let cursor ← get
  match cursor.token.kind with
  | .punctuator .shiftLeft => set (cursor.rescan (.punctuator .less) 1 ('<' :: cursor.rest))
  | .punctuator .lessEqual => set (cursor.rescan (.punctuator .less) 1 ('=' :: cursor.rest))
  | .punctuator .shiftLeftAssign =>
      set (cursor.rescan (.punctuator .less) 1 ('<' :: '=' :: cursor.rest))
  | _ => pure ()

def needsTypes : Parser Unit := do
  flawIf !(← read).typed

end Parser

end ComponentDocs.Script
