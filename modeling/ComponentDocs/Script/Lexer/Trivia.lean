import ComponentDocs.Text.Basic

/-!
What stands between two tokens: blanks, line breaks and comments.

A documentation comment belongs to the token behind it when it is leading.  All
comments since the previous token are leading, unless no line break separates
them from that token and a line break follows: then they trail it.
-/

namespace ComponentDocs.Script

def isLineBreak (c : Char) : Bool :=
  c == '\n' || c == '\r' || c.toNat == 0x2028 || c.toNat == 0x2029

def isInlineBlank (c : Char) : Bool :=
  let code := c.toNat
  c == ' ' || c == '\t' || code == 0xb || code == 0xc || code == 0x85 || code == 0xa0 ||
    code == 0x1680 || code == 0x180e || (0x2000 ≤ code && code ≤ 0x200b) || code == 0x202f ||
    code == 0x205f || code == 0x3000 || code == 0xfeff

/-- The content of a block comment documents what follows when it starts with a
star and holds something else. -/
def isDocContent : Text → Bool
  | '*' :: rest => !rest.all (· == '*')
  | _ => false

structure Trivia where
  /-- A line break, also one inside a comment, precedes the token. -/
  onNewLine : Bool := false
  /-- A line break outside comments has been seen since the previous token. -/
  sawBreak : Bool := false
  pending : Bool := false
  doc : Option Text := none
  /-- The previous token is an opening parenthesis or an assignment sign, behind
  which a line comment is leading. -/
  behindOpener : Bool := false
  closed : Bool := true

namespace Trivia

def settle (t : Trivia) : Trivia :=
  { t with pending := false, doc := none }

def lineBreak (t : Trivia) (c : Char) : Trivia :=
  if c == '\n' || c == '\r' then
    let settled := if t.pending && !t.sawBreak then t.settle else t
    { settled with sawBreak := true, onNewLine := true }
  else { t with onNewLine := true }

def lineComment (t : Trivia) : Trivia :=
  let added := if !t.sawBreak && !t.behindOpener then t.settle else { t with pending := true }
  { added with sawBreak := true }

def blockComment (t : Trivia) (content : Text) : Trivia :=
  { t with pending := true, doc := if isDocContent content then some content else t.doc }

inductive Place where
  | code
  | line
  | block (content : Text)

def skip : Place → Trivia → Nat → Text → Trivia × Nat × Text
  | .block _, t, position, [] => ({ t with closed := false }, position, [])
  | _, t, position, [] => (t, position, [])
  | .block content, t, position, '*' :: '/' :: behind =>
      skip .code (t.blockComment content.reverse) (position + 2) behind
  | .block content, t, position, c :: rest =>
      let t := if isLineBreak c then { t with onNewLine := true } else t
      skip (.block (c :: content)) t (position + 1) rest
  | .line, t, position, c :: rest =>
      if isLineBreak c then skip .code (t.lineBreak c) (position + 1) rest
      else skip .line t (position + 1) rest
  | .code, t, position, '/' :: '/' :: behind => skip .line t.lineComment (position + 2) behind
  | .code, t, position, '/' :: '*' :: behind => skip (.block []) t (position + 2) behind
  | .code, t, position, c :: rest =>
      if isInlineBlank c then skip .code t (position + 1) rest
      else if isLineBreak c then skip .code (t.lineBreak c) (position + 1) rest
      else (t, position, c :: rest)

end Trivia

end ComponentDocs.Script
