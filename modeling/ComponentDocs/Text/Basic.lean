/-!
Texts and the small scanners that everything else is made of.

A text is the list of its characters, so that positions count characters and
a scanner is a recursion on the list.
-/

namespace ComponentDocs

abbrev Text := List Char

instance coeString : Coe String (List Char) := ⟨String.toList⟩

namespace Text

/-- The characters with the Unicode property `White_Space`. -/
def isSpace (c : Char) : Bool :=
  let code := c.toNat
  (9 ≤ code && code ≤ 13) || code == 32 || code == 0x85 || code == 0xa0 || code == 0x1680 ||
    (0x2000 ≤ code && code ≤ 0x200a) || code == 0x2028 || code == 0x2029 || code == 0x202f ||
    code == 0x205f || code == 0x3000

def trimStart (text : Text) : Text :=
  text.dropWhile isSpace

def dropEndWhile (p : Char → Bool) (text : Text) : Text :=
  (text.reverse.dropWhile p).reverse

def trimEnd (text : Text) : Text :=
  dropEndWhile isSpace text

def trim (text : Text) : Text :=
  trimEnd (trimStart text)

def isBlank (text : Text) : Bool :=
  text.all isSpace

def consWord (c : Char) : List Text → List Text
  | [] => [[c]]
  | word :: rest => (c :: word) :: rest

def atWordEnd : Text → Bool
  | [] => true
  | c :: _ => isSpace c

def words : Text → List Text
  | [] => []
  | c :: rest =>
      if isSpace c then words rest
      else if atWordEnd rest then [c] :: words rest
      else consWord c (words rest)

def join (separator : Text) : List Text → Text
  | [] => []
  | [piece] => piece
  | piece :: rest => piece ++ separator ++ join separator rest

/-- White space normalised: no blank at either end, one space between words. -/
def normalize (text : Text) : Text :=
  join " " (words text)

def dropReturn (line : Text) : Text :=
  match line.reverse with
  | '\r' :: rest => rest.reverse
  | _ => line

/-- The lines of a text; `current` is the line being read, last character first.
A line break that ends the text starts no further line. -/
def linesFrom (current : Text) : Text → List Text
  | [] => if current.isEmpty then [] else [current.reverse]
  | c :: rest =>
      if c == '\n' then dropReturn current.reverse :: linesFrom [] rest
      else linesFrom (c :: current) rest

def lines (text : Text) : List Text :=
  linesFrom [] text

def pieces (mark : Char) : Text → List Text
  | [] => [[]]
  | c :: rest =>
      if c == mark then [] :: pieces mark rest
      else
        match pieces mark rest with
        | [] => [[c]]
        | piece :: more => (c :: piece) :: more

def after? (start : Text) : Text → Option Text :=
  fun text => if start.isPrefixOf text then some (text.drop start.length) else none

def cut? (mark : Text) : Text → Option (Text × Text)
  | [] => if mark.isEmpty then some ([], []) else none
  | c :: rest =>
      if mark.isPrefixOf (c :: rest) then some ([], (c :: rest).drop mark.length)
      else (cut? mark rest).map fun (before, behind) => (c :: before, behind)

def contains (mark text : Text) : Bool :=
  (cut? mark text).isSome

def cutAt? (p : Char → Bool) : Text → Option (Text × Text)
  | [] => none
  | c :: rest =>
      if p c then some ([], rest)
      else (cutAt? p rest).map fun (before, behind) => (c :: before, behind)

def byteCount : Text → Nat
  | [] => 0
  | c :: rest => c.utf8Size + byteCount rest

def firstOccurrences : List Text → List Text
  | [] => []
  | text :: rest => text :: (firstOccurrences rest).filter (· != text)

end Text

end ComponentDocs
