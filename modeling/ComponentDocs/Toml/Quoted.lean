import ComponentDocs.Text.Code
import ComponentDocs.Toml.Blank

/-!
Quoted text: basic strings with escapes and literal strings without, each on one
line or over several lines.
-/

namespace ComponentDocs.Toml

def scalar? (code : Nat) : Option Char :=
  if code > 0x10ffff || Text.isSurrogate code then none else some (Char.ofNat code)

def escape? : Text → Option (Char × Nat)
  | 'b' :: _ => some (Char.ofNat 8, 1)
  | 't' :: _ => some ('\t', 1)
  | 'n' :: _ => some ('\n', 1)
  | 'f' :: _ => some (Char.ofNat 12, 1)
  | 'r' :: _ => some ('\r', 1)
  | '"' :: _ => some ('"', 1)
  | '\\' :: _ => some ('\\', 1)
  | 'u' :: rest => ((Text.hexNumber? 4 rest).bind scalar?).map fun c => (c, 5)
  | 'U' :: rest => ((Text.hexNumber? 8 rest).bind scalar?).map fun c => (c, 9)
  | _ => none

/-- A basic string behind its opening quote, and what follows it.  `skip` counts
characters of an escape that was read. -/
def basicString? : Nat → Text → Option (Text × Text)
  | _, [] => none
  | skip + 1, _ :: rest => basicString? skip rest
  | 0, c :: rest =>
      if c == '"' then some ([], rest)
      else if c == '\\' then
        match escape? rest with
        | some (value, count) =>
            (basicString? count rest).map fun (more, behind) => (value :: more, behind)
        | none => none
      else if isPrintable c then
        (basicString? 0 rest).map fun (more, behind) => (c :: more, behind)
      else none

def literalString? : Text → Option (Text × Text)
  | [] => none
  | c :: rest =>
      if c == '\'' then some ([], rest)
      else if isPrintable c then
        (literalString? rest).map fun (more, behind) => (c :: more, behind)
      else none

def voidLength : Text → Nat
  | '\r' :: '\n' :: rest => voidLength rest + 2
  | c :: rest => if isBlank c || c == '\n' then voidLength rest + 1 else 0
  | [] => 0

/-- The number of characters that a backslash at the end of a line takes away. -/
def joinedLength? (text : Text) : Option Nat :=
  if (afterNewline? (skipBlanks text)).isSome then some (voidLength text) else none

/-- The end of a text over several lines: three quotes, with up to two more in front
that belong to the text. -/
def closing? (quote : Char) (text : Text) : Option (Text × Text) :=
  let run := (text.take 5).takeWhile (· == quote)
  if 3 ≤ run.length then some (run.drop 3, text.drop run.length) else none

def multilineString? (quote : Char) (escapes : Bool) : Nat → Text → Option (Text × Text)
  | _, [] => none
  | skip + 1, _ :: rest => multilineString? quote escapes skip rest
  | 0, c :: rest =>
      let put (value : Text) (skip : Nat) : Option (Text × Text) :=
        (multilineString? quote escapes skip rest).map fun (more, behind) =>
          (value ++ more, behind)
      match closing? quote (c :: rest) with
      | some ending => some ending
      | none =>
          if c == '\\' && escapes then
            match joinedLength? rest, escape? rest with
            | some count, _ => put [] count
            | none, some (value, count) => put [value] count
            | none, none => none
          else if isPrintable c || c == '\n' then put [c] 0
          else if c == '\r' && rest.head? == some '\n' then put [] 0
          else none

/-- A line end right behind the opening quotes does not count. -/
def openMultiline (text : Text) : Text :=
  (afterNewline? text).getD text

def lineString? : Text → Option (Text × Text)
  | '"' :: rest => basicString? 0 rest
  | '\'' :: rest => literalString? rest
  | _ => none

def string? : Text → Option (Text × Text)
  | '"' :: '"' :: '"' :: rest => multilineString? '"' true 0 (openMultiline rest)
  | '\'' :: '\'' :: '\'' :: rest => multilineString? '\'' false 0 (openMultiline rest)
  | text => lineString? text

end ComponentDocs.Toml
