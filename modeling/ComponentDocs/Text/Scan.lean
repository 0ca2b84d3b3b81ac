import ComponentDocs.Text.Basic
import ComponentDocs.Text.Word

/-!
Scanners for names and blanks, and the ways to cut a run of characters.
-/

namespace ComponentDocs.Text

def isAsciiLetter (c : Char) : Bool :=
  ('a' ≤ c && c ≤ 'z') || ('A' ≤ c && c ≤ 'Z')

def startsIdentifier (c : Char) : Bool :=
  isAsciiLetter c || c == '_' || c == '$'

def continuesIdentifier (c : Char) : Bool :=
  isWord c || c == '$'

def identifier? : Text → Option (Text × Text)
  | [] => none
  | c :: rest =>
      if startsIdentifier c then
        some (c :: rest.takeWhile continuesIdentifier, rest.dropWhile continuesIdentifier)
      else none

def startsWord : Text → Bool
  | [] => false
  | c :: _ => isWord c

def atBoundary (previous : Option Char) (text : Text) : Bool :=
  (match previous with
    | some c => isWord c
    | none => false) != startsWord text

def afterBlanks? : Text → Option Text
  | [] => none
  | c :: rest => if isSpace c then some (trimStart rest) else none

def afterOptional (start text : Text) : Text :=
  (after? start text).getD text

/-- The ways to cut a text behind characters of a class, the shortest first. -/
def cuts (p : Char → Bool) : Text → List (Text × Text)
  | [] => [([], [])]
  | c :: rest =>
      ([], c :: rest) ::
        if p c then (cuts p rest).map fun (before, behind) => (c :: before, behind) else []

def longCuts (p : Char → Bool) (text : Text) : List (Text × Text) :=
  (cuts p text).reverse

def until? (mark : Char) (text : Text) : Option (Text × Text) :=
  cutAt? (· == mark) text

end ComponentDocs.Text
