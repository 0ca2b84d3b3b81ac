import ComponentDocs.Number.Decimal
import ComponentDocs.Options.Setting
import ComponentDocs.Toml.Quoted

/-!
Settings from environment variables.

A variable is named after a setting, behind a common start.  Its value is a truth
value, a number, quoted text, or a list or table in brackets; everything else is
taken as text.
-/

namespace ComponentDocs.Environment

open Number

def isBlank (c : Char) : Bool :=
  c == ' ' || c == '\t' || c == '\n' || c == '\r' || c.toNat == 12

def skipBlanks (text : Text) : Text :=
  text.dropWhile isBlank

def isSeparator (c : Char) : Bool :=
  c == ',' || c == '\x7b' || c == '\x7d' || c == '[' || c == ']'

/-- Digits with a sign in front, as an integer of 64 bits: with a minus if it is
negative, and else without a sign bit. -/
def integer? (text : Text) : Option Int :=
  let (negative, digits) :=
    match text with
    | '-' :: rest => (true, rest)
    | '+' :: rest => (false, rest)
    | _ => (false, text)
  if digits.isEmpty || !digits.all Char.isDigit then none
  else
    let magnitude := digitsValue digits
    if negative then if magnitude ≤ Nat.pow 2 63 then some (-(magnitude : Int)) else none
    else if magnitude < Nat.pow 2 64 then some magnitude
    else none

def isFraction (text : Text) : Bool :=
  text.any (· == '.') && isNumber text
where
  isNumber : Text → Bool
    | '-' :: rest | '+' :: rest => isDecimal rest
    | text => isDecimal text
  isDecimal (text : Text) : Bool :=
    let significand := text.takeWhile fun c => c.isDigit || c == '.'
    let isPlain := (significand.filter (· == '.')).length ≤ 1 && significand.any Char.isDigit
    isPlain &&
      match text.drop significand.length with
      | [] => true
      | mark :: exponent =>
          let digits :=
            match exponent with
            | '-' :: rest | '+' :: rest => rest
            | _ => exponent
          (mark == 'e' || mark == 'E') && !digits.isEmpty && digits.all Char.isDigit

def bareValue (text : Text) : Setting :=
  if isFraction text then .other
  else
    match integer? text with
    | some value => .integer value
    | none => .text text

def isKeyCharacter (c : Char) : Bool :=
  c.isAlphanum || c == '_' || c == '-'

def afterKey? (text : Text) : Option Text :=
  let text := skipBlanks text
  let bare := text.takeWhile isKeyCharacter
  let rest : Option Text :=
    match text with
    | '"' :: rest => (Toml.basicString? 0 rest).map fun (_, behind) => behind
    | _ => if bare.isEmpty then none else some (text.drop bare.length)
  rest.bind fun rest =>
    match skipBlanks rest with
    | '=' :: behind => some behind
    | _ => none

mutual

def value? : Nat → Text → Option (Setting × Text)
  | 0, _ => none
  | fuel + 1, text =>
      let text := skipBlanks text
      let found :=
        match text with
        | '\x7b' :: rest => (rest? fuel true rest).map fun behind => (Setting.other, behind)
        | '[' :: rest => (rest? fuel false rest).map fun behind => (.other, behind)
        | '"' :: rest => (Toml.basicString? 0 rest).map fun (value, behind) => (.text value, behind)
        | '\'' :: c :: '\'' :: behind => some (.text [c], behind)
        | '\'' :: _ => none
        | _ =>
            match Text.after? "true" text, Text.after? "false" text with
            | some behind, _ => some (.flag true, behind)
            | none, some behind => some (.flag false, behind)
            | none, none =>
                let bare := text.takeWhile fun c => !isSeparator c
                some (bareValue (Text.trim bare), text.drop bare.length)
      found.map fun (value, behind) => (value, skipBlanks behind)

def rest? : Nat → Bool → Text → Option Text
  | 0, _, _ => none
  | fuel + 1, isTable, text =>
      let closing := if isTable then '\x7d' else ']'
      if text.head? == some closing then some (text.drop 1)
      else
        match if isTable then afterKey? text else some text with
        | none => none
        | some text =>
            match value? fuel text with
            | some (_, c :: behind) =>
                if c == ',' then rest? fuel isTable behind
                else if c == closing then some behind
                else none
            | _ => none

end

def setting (text : Text) : Setting :=
  match value? (2 * text.length + 2) text with
  | some (value, []) => value
  | _ => .text text

def commonStart : Text := "fob_docs_"

def settingName? (name : Text) : Option Text :=
  (Text.after? commonStart ((Text.trim name).map Char.toLower)).map Text.trim

/-- The setting of a variable.  A name with points is the path to a setting in a
table. -/
def setting? (entry : Text × Text) : Option (Text × Setting) :=
  (settingName? entry.1).bind fun name =>
    let parts := Text.pieces '.' name
    if parts.any List.isEmpty then none
    else
      match parts with
      | [name] => some (name, setting entry.2)
      | table :: _ => some (table, .other)
      | [] => none

def settings (environment : List (Text × Text)) : Settings :=
  environment.filterMap setting?

end ComponentDocs.Environment
