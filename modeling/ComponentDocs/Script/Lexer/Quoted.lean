import ComponentDocs.Script.Lexer.Name
import ComponentDocs.Script.Lexer.Trivia

/-!
String, template and pattern literals.
-/

namespace ComponentDocs.Script

/-- What an escape stands for, and the number of characters behind the backslash.
A line break that is escaped stands for nothing. -/
def scanEscape (text : Text) : Option (List Nat × Nat) :=
  match text with
  | [] => none
  | 'n' :: _ => some ([10], 1)
  | 't' :: _ => some ([9], 1)
  | 'r' :: _ => some ([13], 1)
  | 'b' :: _ => some ([8], 1)
  | 'f' :: _ => some ([12], 1)
  | 'v' :: _ => some ([11], 1)
  | 'u' :: rest => (scanUnicodeCode rest).map fun (code, count) => ([code], count + 1)
  | 'x' :: rest => (Text.hexNumber? 2 rest).map fun code => ([code], 3)
  | '\r' :: '\n' :: _ => some ([], 2)
  | c :: rest =>
      if isLineBreak c then some ([], 1)
      else if '0' ≤ c && c ≤ '7' then
        -- at most three octal digits, with a value below 256
        let limit := if c ≤ '3' then 2 else 1
        let more := (rest.take limit).takeWhile fun d => '0' ≤ d && d ≤ '7'
        let value := (c :: more).foldl (fun v d => v * 8 + (d.toNat - '0'.toNat)) 0
        some ([value], more.length + 1)
      else some ([c.toNat], 1)

/-- The codes of a string literal behind its opening quote, and the number of
characters up to and with the closing quote.  The first `skip` characters belong to
an escape that has been read. -/
def scanStringFrom (quote : Char) : Nat → Text → Option (List Nat × Nat × Bool)
  | _, [] => none
  | skip + 1, _ :: rest =>
      (scanStringFrom quote skip rest).map fun (codes, count, escaped) =>
        (codes, count + 1, escaped)
  | 0, c :: rest =>
      if c == '\\' then
        (scanEscape rest).bind fun (codes, skip) =>
          (scanStringFrom quote skip rest).map fun (more, count, _) =>
            (codes ++ more, count + 1, true)
      else if c == quote then some ([], 1, false)
      else if c == '\n' || c == '\r' then none
      else
        (scanStringFrom quote 0 rest).map fun (more, count, escaped) =>
          (c.toNat :: more, count + 1, escaped)

def scanString (quote : Char) (text : Text) : Option (List Nat × Nat × Bool) :=
  scanStringFrom quote 0 text

def joinSurrogates : List Nat → List Nat
  | high :: low :: rest =>
      if Text.isHighSurrogate high && Text.isLowSurrogate low then
        Text.pairCode high low :: joinSurrogates rest
      else high :: joinSurrogates (low :: rest)
  | codes => codes

def hexText (code : Nat) : Text :=
  let digits := Nat.toDigits 16 code
  List.replicate (4 - digits.length) '0' ++ digits

/-- The text of codes.  Surrogates without partner are written as the replacement
character and their digits; then so is the replacement character itself. -/
def textOfCodes (codes : List Nat) : Text :=
  let codes := joinSurrogates codes
  if codes.any Text.isSurrogate then
    codes.flatMap fun code =>
      if Text.isSurrogate code || code == 0xfffd then Char.ofNat 0xfffd :: hexText code
      else [Char.ofNat code]
  else codes.map Char.ofNat

inductive TemplateEnd where
  | closed
  | substitution
  deriving DecidableEq, Repr

def isTemplateEscape : Text → Bool
  | 'u' :: rest => (scanUnicodeCode rest).isSome
  | 'x' :: rest => (Text.hexNumber? 2 rest).isSome
  | '0' :: d :: _ => !d.isDigit
  | c :: _ => !('1' ≤ c && c ≤ '9')
  | [] => false

def scanTemplate : Text → Option (TemplateEnd × Nat × Bool)
  | [] => none
  | '\x60' :: _ => some (.closed, 1, true)
  | '$' :: '\x7b' :: _ => some (.substitution, 2, true)
  | '\\' :: c :: rest =>
      (scanTemplate rest).map fun (ending, count, sound) =>
        (ending, count + 2, isTemplateEscape (c :: rest) && sound)
  | _ :: rest =>
      (scanTemplate rest).map fun (ending, count, sound) => (ending, count + 1, sound)

/-- The number of characters of a pattern literal behind its first slash, up to
and with the closing one.  A slash in a character class does not close it. -/
def scanPatternBody (inClass : Bool) : Text → Option Nat
  | [] => none
  | '\\' :: d :: rest => if isLineBreak d then none else (scanPatternBody inClass rest).map (· + 2)
  | c :: rest =>
      if isLineBreak c then none
      else if c == '/' && !inClass then some 1
      else
        let inClass := if c == '[' then true else if c == ']' then false else inClass
        (scanPatternBody inClass rest).map (· + 1)

def soundFlags : Text → Bool
  | [] => true
  | c :: rest => "dgimsuvy".toList.contains c && !rest.contains c && soundFlags rest

def scanPattern (text : Text) : Option Nat :=
  (scanPatternBody false text).bind fun count =>
    let flags := (text.drop count).takeWhile fun c => c.isAlphanum || c == '$' || c == '_'
    if soundFlags flags then some (count + flags.length) else none

end ComponentDocs.Script
