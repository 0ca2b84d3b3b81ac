import ComponentDocs.Text.Basic

/-!
Blanks, line ends and comments.
-/

namespace ComponentDocs.Toml

def isBlank (c : Char) : Bool :=
  c == ' ' || c == '\t'

def skipBlanks (text : Text) : Text :=
  text.dropWhile isBlank

/-- Characters that comments and quoted text may hold: all but control characters
other than the tabulator. -/
def isPrintable (c : Char) : Bool :=
  c == '\t' || (32 ≤ c.toNat && c.toNat != 127)

def afterNewline? : Text → Option Text
  | '\n' :: rest => some rest
  | '\r' :: '\n' :: rest => some rest
  | _ => none

def afterLine? (text : Text) : Option Text :=
  match skipBlanks text with
  | [] => some []
  | '#' :: rest =>
      match rest.dropWhile isPrintable with
      | [] => some []
      | behind => afterNewline? behind
  | behind => afterNewline? behind

def skipVoid (inComment : Bool) : Text → Option Text
  | [] => some []
  | '\n' :: rest => skipVoid false rest
  | '\r' :: '\n' :: rest => skipVoid false rest
  | c :: rest =>
      if inComment then if isPrintable c then skipVoid true rest else none
      else if isBlank c then skipVoid false rest
      else if c == '#' then skipVoid true rest
      else some (c :: rest)

end ComponentDocs.Toml
