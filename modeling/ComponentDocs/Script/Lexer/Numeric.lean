import ComponentDocs.Number.Decimal
import ComponentDocs.Script.Lexer.Name

/-!
Numeric literals: decimal, hexadecimal, octal and binary, with separators
between digits, and whole numbers of any size.
-/

namespace ComponentDocs.Script

open Number

def Radix.base : Radix → Nat
  | .binary => 2
  | .octal => 8
  | .decimal => 10
  | .hexadecimal => 16

def Radix.isDigit (radix : Radix) (c : Char) : Bool :=
  match Text.hexDigit? c with
  | some value => value < radix.base
  | none => false

def startsWithDigit (radix : Radix) : Text → Bool
  | [] => false
  | c :: _ => radix.isDigit c

/-- The digits of a literal from here on, without their separators, and the
number of characters.  A separator stands between two digits. -/
def scanDigits (radix : Radix) : Text → Option (Text × Nat)
  | [] => some ([], 0)
  | c :: '_' :: rest =>
      if !radix.isDigit c then some ([], 0)
      else if startsWithDigit radix rest then
        (scanDigits radix rest).map fun (digits, count) => (c :: digits, count + 2)
      else none
  | c :: rest =>
      if radix.isDigit c then
        (scanDigits radix rest).map fun (digits, count) => (c :: digits, count + 1)
      else some ([], 0)

structure ScannedNumber where
  radix : Radix
  digits : Text
  count : Nat
  whole : Bool := false

def endsNumber : Text → Bool
  | [] => true
  | c :: _ => !(Text.isNameStart c || c.isDigit || c == '\\')

def scanExponent (text : Text) : Option (Text × Nat) :=
  match text with
  | mark :: rest =>
      if mark == 'e' || mark == 'E' then
        let (sign, rest) :=
          match rest with
          | '+' :: more => (['+'], more)
          | '-' :: more => (['-'], more)
          | _ => ([], rest)
        (scanDigits .decimal rest).bind fun (digits, count) =>
          if digits.isEmpty then none
          else some ('e' :: sign ++ digits, count + sign.length + 1)
      else some ([], 0)
  | [] => some ([], 0)

def scanFraction (whole : Text) (consumed : Nat) (text : Text) : Option ScannedNumber :=
  match text with
  | '.' :: rest =>
      (match rest with
        | '_' :: _ => none
        | _ => scanDigits .decimal rest).bind fun (fraction, count) =>
        (scanExponent (rest.drop count)).map fun (exponent, more) =>
          ⟨.decimal, whole ++ "." ++ fraction ++ exponent, consumed + 1 + count + more, false⟩
  | _ =>
      (scanExponent text).map fun (exponent, more) =>
        ⟨.decimal, whole ++ exponent, consumed + more, false⟩

def scanRadix (radix : Radix) (text : Text) : Option ScannedNumber :=
  (scanDigits radix text).bind fun (digits, count) =>
    if digits.isEmpty then none
    else
      match text.drop count with
      | 'n' :: _ => some ⟨radix, digits, count + 3, true⟩
      | _ => some ⟨radix, digits, count + 2, false⟩

/-- A literal that starts with a zero and goes on with digits is octal, or decimal
if a digit above seven occurs. -/
def scanLeadingZero (text : Text) : Option ScannedNumber :=
  let digits := text.takeWhile Char.isDigit
  let rest := text.drop digits.length
  if digits.all (fun c => c < '8') then some ⟨.octal, digits.drop 1, digits.length, false⟩
  else
    match rest with
    | '.' :: _ | 'e' :: _ => scanFraction digits digits.length rest
    | _ => some ⟨.decimal, digits, digits.length, false⟩

def scanDecimal (text : Text) : Option ScannedNumber :=
  (scanDigits .decimal text).bind fun (whole, count) =>
    match text.drop count with
    | 'n' :: _ => some ⟨.decimal, whole, count + 1, true⟩
    | rest => scanFraction whole count rest

def scanNumber (text : Text) : Option ScannedNumber :=
  let scanned :=
    match text with
    | '0' :: mark :: rest =>
        if mark == 'x' || mark == 'X' then scanRadix .hexadecimal rest
        else if mark == 'o' || mark == 'O' then scanRadix .octal rest
        else if mark == 'b' || mark == 'B' then scanRadix .binary rest
        else if mark.isDigit then scanLeadingZero text
        else if mark == '_' then none
        else scanDecimal text
    | '.' :: _ => scanFraction [] 0 text
    | _ => scanDecimal text
  scanned.bind fun number => if endsNumber (text.drop number.count) then some number else none

def radixValue (radix : Radix) (digits : Text) : Nat :=
  digits.foldl (fun value c => value * radix.base + (Text.hexDigit? c).getD 0) 0

def Radix.exactDigits : Radix → Nat
  | .binary => 64
  | .octal => 21
  | .decimal => 0
  | .hexadecimal => 16

/-- The number that a literal stands for, unless it is too large.  Long digit runs
of a radix other than ten are rounded digit by digit. -/
def numberValue? (radix : Radix) (digits : Text) : Option Binary64 :=
  if radix == .decimal then readDecimal? digits
  else if digits.length ≤ radix.exactDigits then Binary64.ofNat? (radixValue radix digits)
  else
    digits.foldl
      (fun value c =>
        value.bind fun x =>
          Binary64.ofNat? ((x.wholeMagnitude?.getD 0) * radix.base + (Text.hexDigit? c).getD 0))
      (some Binary64.zero)

def numberName (value : Option Binary64) : Text :=
  match value with
  | some x => plainFormat.write x
  | none => "inf"

end ComponentDocs.Script
