import ComponentDocs.Number.Decimal
import ComponentDocs.Text.Code
import ComponentDocs.Toml.Blank
import ComponentDocs.Toml.Value

/-!
Numbers, dates and truth values.
-/

namespace ComponentDocs.Toml

open Number

def isDigitRun (isDigit : Char → Bool) : Text → Bool
  | [] => false
  | [c] => isDigit c
  | c :: '_' :: rest => isDigit c && isDigitRun isDigit rest
  | c :: rest => isDigit c && isDigitRun isDigit rest

def withoutUnderscores (text : Text) : Text :=
  text.filter (· != '_')

def isDecimalRun (text : Text) : Bool :=
  isDigitRun Char.isDigit text && (text.length == 1 || text.head? != some '0')

def cutSign : Text → Bool × Text
  | '-' :: rest => (true, rest)
  | '+' :: rest => (false, rest)
  | text => (false, text)

def baseValue (base : Nat) (digits : Text) : Nat :=
  digits.foldl (fun value c => value * base + (Text.hexDigit? c).getD 0) 0

def isShort (value : Int) : Bool :=
  -(Int.pow 2 63) ≤ value && value < Int.pow 2 63

def integer? (spelling : Text) : Option Int :=
  let based (base : Nat) (digits : Text) : Option Int :=
    let isDigit (c : Char) : Bool :=
      ((Text.hexDigit? c).map fun value => decide (value < base)).getD false
    if isDigitRun isDigit digits then some (baseValue base (withoutUnderscores digits)) else none
  let value :=
    match spelling with
    | '0' :: 'x' :: digits => based 16 digits
    | '0' :: 'o' :: digits => based 8 digits
    | '0' :: 'b' :: digits => based 2 digits
    | _ =>
        let (negative, digits) := cutSign spelling
        if isDecimalRun digits then
          let magnitude : Int := baseValue 10 (withoutUnderscores digits)
          some (if negative then -magnitude else magnitude)
        else none
  value.bind fun value => if isShort value then some value else none

def isExponent (text : Text) : Bool :=
  isDigitRun Char.isDigit (cutSign text).2

def isExponentMark (c : Char) : Bool :=
  c == 'e' || c == 'E'

def isFraction (text : Text) : Bool :=
  let (significand, exponent) :=
    match Text.cutAt? isExponentMark text with
    | some (significand, exponent) => (significand, some exponent)
    | none => (text, none)
  match Text.cutAt? (· == '.') significand, exponent with
  | some (whole, fraction), none => isDecimalRun whole && isDigitRun Char.isDigit fraction
  | some (whole, fraction), some exponent =>
      isDecimalRun whole && isDigitRun Char.isDigit fraction && isExponent exponent
  | none, some exponent => isDecimalRun significand && isExponent exponent
  | none, none => false

/-- A number that is no integer.  One beyond the greatest number is refused. -/
def isFloat (spelling : Text) : Bool :=
  let (negative, magnitude) := cutSign spelling
  magnitude == "inf".toList || magnitude == "nan".toList ||
    (isFraction magnitude &&
      (negative || (readDecimal? (withoutUnderscores magnitude)).isSome))

def digits? (count : Nat) (text : Text) : Option (Nat × Text) :=
  let digits := text.take count
  if digits.length == count && digits.all Char.isDigit then
    some (digitsValue digits, text.drop count)
  else none

def afterMark? (mark : Char) : Text → Option Text
  | c :: rest => if c == mark then some rest else none
  | [] => none

def isLeapYear (year : Nat) : Bool :=
  (year % 4 == 0 && year % 100 != 0) || year % 400 == 0

def daysInMonth (year month : Nat) : Nat :=
  if month == 2 then if isLeapYear year then 29 else 28
  else if month == 4 || month == 6 || month == 9 || month == 11 then 30
  else 31

def afterDate? (text : Text) : Option Text := do
  let (year, rest) ← digits? 4 text
  let (month, rest) ← digits? 2 (← afterMark? '-' rest)
  let (day, rest) ← digits? 2 (← afterMark? '-' rest)
  if 1 ≤ month && month ≤ 12 && 1 ≤ day && day ≤ daysInMonth year month then some rest else none

def afterMinutes? (text : Text) : Option Text := do
  let (hour, rest) ← digits? 2 text
  let (minute, rest) ← digits? 2 (← afterMark? ':' rest)
  if hour ≤ 23 && minute ≤ 59 then some rest else none

def afterTime? (text : Text) : Option Text := do
  let (second, rest) ← digits? 2 (← afterMark? ':' (← afterMinutes? text))
  if 60 < second then none
  else
    match rest with
    | '.' :: fraction =>
        if (fraction.takeWhile Char.isDigit).isEmpty then none
        else some (fraction.dropWhile Char.isDigit)
    | _ => some rest

def isOffset : Text → Bool
  | [] | ['Z'] | ['z'] => true
  | '+' :: rest | '-' :: rest => afterMinutes? rest == some []
  | _ => false

def isDate (spelling : Text) : Bool :=
  match afterDate? spelling with
  | some [] => true
  | some (mark :: time) =>
      (mark == 'T' || mark == 't' || mark == ' ') && ((afterTime? time).map isOffset).getD false
  | none => afterTime? spelling == some []

def isBareValue (c : Char) : Bool :=
  c.isAlphanum || c == '+' || c == '-' || c == '.' || c == '_' || c == ':'

/-- The spelling of a value that is not quoted.  A date may be followed by a space and
its time. -/
def cutBareValue (text : Text) : Text × Text :=
  let first := text.takeWhile isBareValue
  match text.drop first.length with
  | ' ' :: d :: rest =>
      if afterDate? first == some [] && d.isDigit then
        let time := (d :: rest).takeWhile isBareValue
        (first ++ ' ' :: time, (d :: rest).drop time.length)
      else (first, ' ' :: d :: rest)
  | behind => (first, behind)

def bareValue? (spelling : Text) : Option Value :=
  if spelling == "true".toList then some (.flag true)
  else if spelling == "false".toList then some (.flag false)
  else if isDate spelling then some (.date spelling)
  else if isFloat spelling then some (.fraction spelling)
  else (integer? spelling).map .integer

end ComponentDocs.Toml
