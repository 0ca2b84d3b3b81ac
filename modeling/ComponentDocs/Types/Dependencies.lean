import ComponentDocs.Text.Word
import ComponentDocs.Text.Basic

/-!
The names of types that a text refers to: capitalised words outside comments and
quotes.
-/

namespace ComponentDocs.Types

/-- The number of characters of a string up to its closing quote, behind the opening
one.  It does not go over a line break, unless that is escaped. -/
def stringLength? (quote : Char) : Text → Option Nat
  | [] => none
  | '\\' :: _ :: rest => (stringLength? quote rest).map (· + 2)
  | c :: rest =>
      if c == quote then some 1
      else if c == '\n' || c == '\\' then none
      else (stringLength? quote rest).map (· + 1)

def noiseLength? (text : Text) : Option Nat :=
  match text with
  | '/' :: '*' :: rest => (Text.cut? "*/" rest).map fun (inside, _) => inside.length + 4
  | '/' :: '/' :: rest => some ((rest.takeWhile (· != '\n')).length + 2)
  | '"' :: rest => (stringLength? '"' rest).map (· + 1)
  | '\'' :: rest => (stringLength? '\'' rest).map (· + 1)
  | '\x60' :: rest => (Text.cutAt? (· == '\x60') rest).map fun (inside, _) => inside.length + 2
  | _ => none

/-- The text with a space for each comment and quoted text.  `skip` counts characters
that belong to one already found. -/
def blankNoise : Nat → Text → Text
  | _, [] => []
  | skip + 1, _ :: rest => blankNoise skip rest
  | 0, c :: rest =>
      match noiseLength? (c :: rest) with
      | some length => ' ' :: blankNoise (length - 1) rest
      | none => c :: blankNoise 0 rest

def endsRun : Text → Bool
  | [] => true
  | c :: _ => !Text.isWord c

def wordRuns : Text → List Text
  | [] => []
  | c :: rest =>
      if !Text.isWord c then wordRuns rest
      else if endsRun rest then [c] :: wordRuns rest
      else Text.consWord c (wordRuns rest)

def isPlainWord (c : Char) : Bool :=
  ('a' ≤ c && c ≤ 'z') || ('A' ≤ c && c ≤ 'Z') || ('0' ≤ c && c ≤ '9') || c == '_'

def isTypeName : Text → Bool
  | [] => false
  | c :: rest => 'A' ≤ c && c ≤ 'Z' && rest.all isPlainWord

def builtinTypes : List String :=
  ["Array", "ArrayLike", "Awaited", "Boolean", "Component", "CustomEvent", "Date", "Error",
    "Event", "Exclude", "Extract", "FocusEvent", "Function", "HTMLElement", "InputEvent",
    "InstanceType", "Iterable", "KeyboardEvent", "Map", "MouseEvent", "NonNullable", "Number",
    "Object", "Omit", "Parameters", "Partial", "Pick", "PointerEvent", "Promise", "Readonly",
    "ReadonlyArray", "Record", "RegExp", "Required", "ReturnType", "Set", "Snippet", "String",
    "Symbol", "WeakMap", "WeakSet"]

def isBuiltin (name : Text) : Bool :=
  builtinTypes.any fun known => known.toList == name

/-- The names of types that a text refers to, in order, without those that come with
the language and without one that is excluded. -/
def dependencyNames (text exclude : Text) : List Text :=
  Text.firstOccurrences ((wordRuns (blankNoise 0 text)).filter fun name =>
    isTypeName name && name != exclude && !isBuiltin name)

end ComponentDocs.Types
