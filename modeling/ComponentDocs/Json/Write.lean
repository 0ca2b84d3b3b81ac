import ComponentDocs.Json.Basic
import ComponentDocs.Number.Decimal

/-!
JSON values as text, on one line or with two spaces for each level.
-/

namespace ComponentDocs.Json

open Number

/-- Fractions keep a point or an exponent, with a sign, and are written by position
from a hundred-thousandth to sixteen digits. -/
def floatFormat : DecimalFormat := ⟨some (-5, 15), ".0", "+"⟩

def integerText (value : Int) : Text :=
  let digits := Nat.toDigits 10 value.natAbs
  if value < 0 then '-' :: digits else digits

/-- A character inside quotes.  Only quotes, backslashes and control characters are
escaped. -/
def escape (c : Char) : Text :=
  if c == '"' then "\\\""
  else if c == '\\' then "\\\\"
  else if c == '\n' then "\\n"
  else if c == '\r' then "\\r"
  else if c == '\t' then "\\t"
  else if c.toNat == 8 then "\\b"
  else if c.toNat == 12 then "\\f"
  else if c.toNat < 16 then "\\u000" ++ Nat.toDigits 16 c.toNat
  else if c.toNat < 32 then "\\u00" ++ Nat.toDigits 16 c.toNat
  else [c]

def quote (text : Text) : Text :=
  '"' :: text.flatMap escape ++ ['"']

mutual

def compact : Json → Text
  | .null => "null"
  | .bool true => "true"
  | .bool false => "false"
  | .integer value => integerText value
  | .float value => floatFormat.write value
  | .string value => quote value
  | .array items => "[" ++ Text.join "," (compactItems items) ++ "]"
  | .object fields => "\x7b" ++ Text.join "," (compactFields fields) ++ "\x7d"

def compactItems : List Json → List Text
  | [] => []
  | item :: rest => compact item :: compactItems rest

def compactFields : List (Text × Json) → List Text
  | [] => []
  | (name, value) :: rest => (quote name ++ ":" ++ compact value) :: compactFields rest

end

def newLine (level : Nat) : Text :=
  '\n' :: List.replicate (2 * level) ' '

def bracketed (opening closing : Text) (level : Nat) (lines : List Text) : Text :=
  if lines.isEmpty then opening ++ closing
  else
    opening ++ newLine (level + 1) ++ Text.join ("," ++ newLine (level + 1)) lines ++
      newLine level ++ closing

mutual

def prettyAt (level : Nat) : Json → Text
  | .null => "null"
  | .bool true => "true"
  | .bool false => "false"
  | .integer value => integerText value
  | .float value => floatFormat.write value
  | .string value => quote value
  | .array items => bracketed "[" "]" level (prettyItems (level + 1) items)
  | .object fields => bracketed "\x7b" "\x7d" level (prettyFields (level + 1) fields)

def prettyItems (level : Nat) : List Json → List Text
  | [] => []
  | item :: rest => prettyAt level item :: prettyItems level rest

def prettyFields (level : Nat) : List (Text × Json) → List Text
  | [] => []
  | (name, value) :: rest => (quote name ++ ": " ++ prettyAt level value) :: prettyFields level rest

end

def pretty (value : Json) : Text :=
  prettyAt 0 value

end ComponentDocs.Json
