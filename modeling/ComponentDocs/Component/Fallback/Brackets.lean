import ComponentDocs.Text.Basic

/-!
Cutting source text by counting brackets and quotes.
-/

namespace ComponentDocs.Component

def isQuote (c : Char) : Bool :=
  c == '"' || c == '\'' || c == '\x60'

def opensGroup (c : Char) : Bool :=
  c == '(' || c == '[' || c == '\x7b' || c == '<'

def closesGroup (c : Char) : Bool :=
  c == ')' || c == ']' || c == '\x7d' || c == '>'

inductive BlockPlace where
  | code
  | quoted (quote : Char)
  | escaped (quote : Char)
  deriving DecidableEq, Repr

/-- The rest of a block up to its closing brace, and what follows it.  `depth`
counts the braces that are open inside it. -/
def blockFrom : BlockPlace → Nat → Text → Option (Text × Text)
  | _, _, [] => none
  | .escaped quote, depth, c :: rest => consInside c (blockFrom (.quoted quote) depth rest)
  | .quoted quote, depth, c :: rest =>
      if c == '\\' then consInside c (blockFrom (.escaped quote) depth rest)
      else if c == quote then consInside c (blockFrom .code depth rest)
      else consInside c (blockFrom (.quoted quote) depth rest)
  | .code, depth, c :: rest =>
      if isQuote c then consInside c (blockFrom (.quoted c) depth rest)
      else if c == '\x7b' then consInside c (blockFrom .code (depth + 1) rest)
      else if c == '\x7d' then
        match depth with
        | 0 => some ([], rest)
        | depth + 1 => consInside c (blockFrom .code depth rest)
      else consInside c (blockFrom .code depth rest)
where
  consInside (c : Char) : Option (Text × Text) → Option (Text × Text)
    | none => none
    | some (inside, behind) => some (c :: inside, behind)

def balancedBlock (text : Text) : Option (Text × Text) :=
  blockFrom .code 0 text

def consPiece (c : Char) : List Text → List Text
  | [] => [[c]]
  | piece :: rest => (c :: piece) :: rest

/-- The pieces of a text between separators outside brackets and quotes.  An arrow
closes no bracket, and a quote behind a backslash closes no quotes. -/
def piecesFrom (isSeparator : Char → Bool) :
    Nat → Option Char → Option Char → Text → List Text
  | _, _, _, [] => [[]]
  | depth, some quote, previous, c :: rest =>
      let quoted := if c == quote && previous != some '\\' then none else some quote
      consPiece c (piecesFrom isSeparator depth quoted (some c) rest)
  | depth, none, previous, c :: rest =>
      if isQuote c then consPiece c (piecesFrom isSeparator depth (some c) (some c) rest)
      else if opensGroup c then
        consPiece c (piecesFrom isSeparator (depth + 1) none (some c) rest)
      else if c == '>' && previous == some '=' then
        consPiece c (piecesFrom isSeparator depth none (some c) rest)
      else if closesGroup c then
        consPiece c (piecesFrom isSeparator (depth - 1) none (some c) rest)
      else if depth == 0 && isSeparator c then
        [] :: piecesFrom isSeparator depth none (some c) rest
      else consPiece c (piecesFrom isSeparator depth none (some c) rest)

def splitTopLevel (isSeparator : Char → Bool) (text : Text) : List Text :=
  piecesFrom isSeparator 0 none none text

/-- Whether an equals sign with these neighbours assigns a default, rather than
being part of an operator. -/
def assignsDefault (previous next : Option Char) : Bool :=
  next != some '>' && next != some '=' &&
    !(previous == some '=' || previous == some '!' || previous == some '<' || previous == some '>')

def cutDefault : Int → Option Char → Text → Option (Text × Text)
  | _, _, [] => none
  | depth, previous, c :: rest =>
      let inside (depth : Int) :=
        (cutDefault depth (some c) rest).map fun (before, behind) => (c :: before, behind)
      if opensGroup c then inside (depth + 1)
      else if c == '>' && previous == some '=' then inside depth
      else if closesGroup c then inside (depth - 1)
      else if c == '=' && depth == 0 && assignsDefault previous rest.head? then some ([], rest)
      else inside depth

def splitDefault (text : Text) : Text × Option Text :=
  match cutDefault 0 none text with
  | some (binding, fallback) => (binding, some (Text.trim fallback))
  | none => (text, none)

end ComponentDocs.Component
