import ComponentDocs.Script.Lexer.Mark
import ComponentDocs.Script.Lexer.Numeric
import ComponentDocs.Script.Lexer.Quoted

/-!
Tokens one by one.  Which token begins at a slash, a closing brace or a
greater-than sign depends on the grammar, so the grammar asks for such a token
to be read again in another way.
-/

namespace ComponentDocs.Script

structure Lexeme where
  kind : TokenKind
  count : Nat
  escaped : Bool := false
  sound : Bool := true
  text : Text := []
  spelled : kind.allows text = true := by rfl

namespace Lexeme

def invalid : Lexeme :=
  { kind := .invalid, count := 1 }

def ofName (text : Text) : Lexeme :=
  match hscan : scanName text with
  | some ⟨[], _, _⟩ | none => invalid
  | some scanned =>
      { kind := .name (Keyword.ofText? scanned.name), count := scanned.count,
        escaped := scanned.escaped, text := scanned.name,
        spelled := scanName_isNameCharacter hscan }

def ofPrivateName (text : Text) : Lexeme :=
  match scanName (text.drop 1) with
  | some ⟨[], _, _⟩ | none => invalid
  | some scanned =>
      { kind := .privateName, count := scanned.count + 1, escaped := scanned.escaped,
        text := scanned.name }

def ofNumber (text : Text) : Lexeme :=
  match scanNumber text with
  | none => invalid
  | some number =>
      if number.whole then
        { kind := .bigint, count := number.count,
          text := Nat.toDigits 10 (radixValue number.radix number.digits) }
      else { kind := .number number.radix, count := number.count, text := number.digits }

def ofString (quote : Char) (text : Text) : Lexeme :=
  match scanString quote text with
  | none => invalid
  | some (codes, count, escaped) =>
      { kind := .string, count := count + 1, escaped := escaped, text := textOfCodes codes }

def ofTemplate (whole head : TokenKind) (text : Text) : Lexeme :=
  match scanTemplate text with
  | none => invalid
  | some (.closed, count, sound) =>
      { kind := whole, count := count + 1, sound := sound, spelled := whole.allows_nil }
  | some (.substitution, count, sound) =>
      { kind := head, count := count + 1, sound := sound, spelled := head.allows_nil }

theorem ofTemplate_allows (text other : Text) :
    (ofTemplate .templateTail .templateMiddle text).kind.allows other = true := by
  unfold ofTemplate
  split <;> rfl

def ofMark (text : Text) : Lexeme :=
  match Punctuator.scan text with
  | some (mark, count) => { kind := .punctuator mark, count := count }
  | none => invalid

def startsFraction : Text → Bool
  | '.' :: d :: _ => d.isDigit
  | _ => false

def scan (text : Text) : Lexeme :=
  match text with
  | [] => { kind := .endOfSource, count := 0, spelled := TokenKind.allows_nil _ }
  | c :: rest =>
      if Text.isNameStart c || c == '\\' then ofName text
      else if c == '#' then ofPrivateName text
      else if c.isDigit || startsFraction text then ofNumber text
      else if c == '"' || c == '\'' then ofString c rest
      else if c == '\x60' then ofTemplate .templateWhole .templateHead rest
      else ofMark text

end Lexeme

structure Lexed where
  token : Token
  doc : Option Text
  rest : Text

def Lexed.next (trivia : Trivia) (position : Nat) (text : Text) : Lexed :=
  let (trivia, start, text) := Trivia.skip .code trivia position text
  let lexeme := if trivia.closed then Lexeme.scan text else Lexeme.invalid
  { token :=
      { kind := lexeme.kind, span := ⟨start, start + lexeme.count⟩, onNewLine := trivia.onNewLine,
        escaped := lexeme.escaped, sound := lexeme.sound, text := lexeme.text,
        spelled := lexeme.spelled },
    doc := trivia.doc,
    rest := text.drop lexeme.count }

/-- The text from which the tokens of a source are read, and its position: a byte
order mark and a first line that names an interpreter are passed over. -/
def openSource (source : Text) : Nat × Text :=
  match source with
  | '#' :: '!' :: rest =>
      let line := rest.takeWhile fun c => !isLineBreak c
      (line.length + 2, rest.drop line.length)
  | c :: rest => if c.toNat == 0xfeff then (1, rest) else (0, source)
  | [] => (0, source)

end ComponentDocs.Script
