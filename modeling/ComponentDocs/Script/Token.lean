import ComponentDocs.Text.Basic
import ComponentDocs.Text.Identifier

/-!
The tokens of a script.
-/

namespace ComponentDocs.Script

structure Span where
  start : Nat
  stop : Nat
  deriving DecidableEq, Repr, Inhabited

def Span.text (span : Span) (source : Text) : Text :=
  (source.drop span.start).take (span.stop - span.start)

inductive Punctuator where
  | openBrace | closeBrace | openParen | closeParen | openBracket | closeBracket
  | dot | ellipsis | semicolon | comma | colon | question | questionDot | atSign | arrow
  | less | lessEqual | shiftLeft | greater | greaterEqual | shiftRight | shiftRightZero
  | equal | notEqual | strictEqual | strictNotEqual
  | plus | minus | star | slash | percent | power | increment | decrement
  | ampersand | bar | caret | bang | tilde | logicalAnd | logicalOr | coalesce
  | assign | plusAssign | minusAssign | starAssign | slashAssign | percentAssign | powerAssign
  | shiftLeftAssign | shiftRightAssign | shiftRightZeroAssign
  | andAssign | orAssign | xorAssign | logicalAndAssign | logicalOrAssign | coalesceAssign
  deriving DecidableEq, Repr

/-- The words that the grammar looks for.  Those marked reserved cannot be used
as names. -/
inductive Keyword where
  -- reserved
  | awaitWord | breakWord | caseWord | catchWord | classWord | constWord | continueWord
  | debuggerWord | defaultWord | deleteWord | doWord | elseWord | enumWord | exportWord
  | extendsWord | falseWord | finallyWord | forWord | functionWord | ifWord | importWord
  | inWord | instanceofWord | newWord | nullWord | returnWord | superWord | switchWord
  | thisWord | throwWord | trueWord | tryWord | typeofWord | varWord | voidWord | whileWord
  | withWord | yieldWord
  -- usable as names
  | abstractWord | accessorWord | anyWord | asWord | assertWord | assertsWord | asyncWord
  | bigintWord | booleanWord | constructorWord | declareWord | deferWord | fromWord | getWord
  | globalWord | implementsWord | inferWord | interfaceWord | isWord | keyofWord | letWord
  | metaWord | moduleWord | namespaceWord | neverWord | numberWord | objectWord | ofWord
  | outWord | overrideWord | packageWord | privateWord | protectedWord | publicWord
  | readonlyWord | requireWord | satisfiesWord | setWord | sourceWord | staticWord | stringWord
  | symbolWord | targetWord | typeWord | undefinedWord | uniqueWord | unknownWord | usingWord
  deriving DecidableEq, Repr

def Keyword.spelling : Keyword → Text
  | .awaitWord => "await"
  | .breakWord => "break"
  | .caseWord => "case"
  | .catchWord => "catch"
  | .classWord => "class"
  | .constWord => "const"
  | .continueWord => "continue"
  | .debuggerWord => "debugger"
  | .defaultWord => "default"
  | .deleteWord => "delete"
  | .doWord => "do"
  | .elseWord => "else"
  | .enumWord => "enum"
  | .exportWord => "export"
  | .extendsWord => "extends"
  | .falseWord => "false"
  | .finallyWord => "finally"
  | .forWord => "for"
  | .functionWord => "function"
  | .ifWord => "if"
  | .importWord => "import"
  | .inWord => "in"
  | .instanceofWord => "instanceof"
  | .newWord => "new"
  | .nullWord => "null"
  | .returnWord => "return"
  | .superWord => "super"
  | .switchWord => "switch"
  | .thisWord => "this"
  | .throwWord => "throw"
  | .trueWord => "true"
  | .tryWord => "try"
  | .typeofWord => "typeof"
  | .varWord => "var"
  | .voidWord => "void"
  | .whileWord => "while"
  | .withWord => "with"
  | .yieldWord => "yield"
  | .abstractWord => "abstract"
  | .accessorWord => "accessor"
  | .anyWord => "any"
  | .asWord => "as"
  | .assertWord => "assert"
  | .assertsWord => "asserts"
  | .asyncWord => "async"
  | .bigintWord => "bigint"
  | .booleanWord => "boolean"
  | .constructorWord => "constructor"
  | .declareWord => "declare"
  | .deferWord => "defer"
  | .fromWord => "from"
  | .getWord => "get"
  | .globalWord => "global"
  | .implementsWord => "implements"
  | .inferWord => "infer"
  | .interfaceWord => "interface"
  | .isWord => "is"
  | .keyofWord => "keyof"
  | .letWord => "let"
  | .metaWord => "meta"
  | .moduleWord => "module"
  | .namespaceWord => "namespace"
  | .neverWord => "never"
  | .numberWord => "number"
  | .objectWord => "object"
  | .ofWord => "of"
  | .outWord => "out"
  | .overrideWord => "override"
  | .packageWord => "package"
  | .privateWord => "private"
  | .protectedWord => "protected"
  | .publicWord => "public"
  | .readonlyWord => "readonly"
  | .requireWord => "require"
  | .satisfiesWord => "satisfies"
  | .setWord => "set"
  | .sourceWord => "source"
  | .staticWord => "static"
  | .stringWord => "string"
  | .symbolWord => "symbol"
  | .targetWord => "target"
  | .typeWord => "type"
  | .undefinedWord => "undefined"
  | .uniqueWord => "unique"
  | .unknownWord => "unknown"
  | .usingWord => "using"

def Keyword.all : List Keyword :=
  [.awaitWord, .breakWord, .caseWord, .catchWord, .classWord, .constWord, .continueWord,
    .debuggerWord, .defaultWord, .deleteWord, .doWord, .elseWord, .enumWord, .exportWord,
    .extendsWord, .falseWord, .finallyWord, .forWord, .functionWord, .ifWord, .importWord,
    .inWord, .instanceofWord, .newWord, .nullWord, .returnWord, .superWord, .switchWord,
    .thisWord, .throwWord, .trueWord, .tryWord, .typeofWord, .varWord, .voidWord, .whileWord,
    .withWord, .yieldWord, .abstractWord, .accessorWord, .anyWord, .asWord, .assertWord,
    .assertsWord, .asyncWord, .bigintWord, .booleanWord, .constructorWord, .declareWord,
    .deferWord, .fromWord, .getWord, .globalWord, .implementsWord, .inferWord, .interfaceWord,
    .isWord, .keyofWord, .letWord, .metaWord, .moduleWord, .namespaceWord, .neverWord,
    .numberWord, .objectWord, .ofWord, .outWord, .overrideWord, .packageWord, .privateWord,
    .protectedWord, .publicWord, .readonlyWord, .requireWord, .satisfiesWord, .setWord,
    .sourceWord, .staticWord, .stringWord, .symbolWord, .targetWord, .typeWord,
    .undefinedWord, .uniqueWord, .unknownWord, .usingWord ]

def Keyword.ofText? (text : Text) : Option Keyword :=
  Keyword.all.find? fun word => word.spelling == text

/-- Words that are never names; `await` and `yield` depend on the context. -/
def Keyword.isReserved : Keyword → Bool
  | .awaitWord | .breakWord | .caseWord | .catchWord | .classWord | .constWord | .continueWord
  | .debuggerWord | .defaultWord | .deleteWord | .doWord | .elseWord | .enumWord | .exportWord
  | .extendsWord | .falseWord | .finallyWord | .forWord | .functionWord | .ifWord | .importWord
  | .inWord | .instanceofWord | .newWord | .nullWord | .returnWord | .superWord | .switchWord
  | .thisWord | .throwWord | .trueWord | .tryWord | .typeofWord | .varWord | .voidWord
  | .whileWord | .withWord | .yieldWord => true
  | _ => false

/-- Words that strict code keeps for the future; an export list may not refer
to them. -/
def Keyword.isStrictReserved : Keyword → Bool
  | .implementsWord | .interfaceWord | .letWord | .packageWord | .privateWord
  | .protectedWord | .publicWord | .staticWord => true
  | _ => false

inductive Radix where
  | binary | octal | decimal | hexadecimal
  deriving DecidableEq, Repr

inductive TokenKind where
  | endOfSource
  | name (keyword : Option Keyword)
  | privateName
  | string
  | number (radix : Radix)
  | bigint
  | regex
  | templateWhole
  | templateHead
  | templateMiddle
  | templateTail
  | markupText
  | punctuator (mark : Punctuator)
  | invalid
  deriving DecidableEq, Repr

/-- Whether a token of the kind may have the text.  A name consists of name
characters. -/
def TokenKind.allows : TokenKind → Text → Bool
  | .name _, text => text.all Text.isNameCharacter
  | _, _ => true

theorem TokenKind.allows_nil (kind : TokenKind) : kind.allows [] = true := by
  cases kind <;> rfl

/-- A token.  `text` is the spelling of a name after its escapes, the value of a
string, or the digits of a number, in decimal for a whole number of any size;
`escaped` says that the spelling used escapes; `sound` is false when an escape in a
template means nothing. -/
structure Token where
  kind : TokenKind
  span : Span
  onNewLine : Bool := false
  escaped : Bool := false
  sound : Bool := true
  text : Text := []
  spelled : kind.allows text = true := by rfl
  deriving Repr

structure Identifier where
  text : Text
  spelled : text.all Text.isNameCharacter = true
  deriving DecidableEq, Repr

instance : Coe Identifier Text := ⟨Identifier.text⟩

instance : Inhabited Token :=
  ⟨{ kind := .endOfSource, span := ⟨0, 0⟩, spelled := TokenKind.allows_nil _ }⟩

def Token.is (token : Token) (mark : Punctuator) : Bool :=
  token.kind == .punctuator mark

def Token.isKeyword (token : Token) (word : Keyword) : Bool :=
  token.kind == .name (some word) && !token.escaped

end ComponentDocs.Script
