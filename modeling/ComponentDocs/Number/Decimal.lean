import ComponentDocs.Text.Basic
import ComponentDocs.Number.Binary64

/-!
Decimal text of binary numbers: the fewest digits that read back as the same
number and, among those, the nearest to it.
-/

namespace ComponentDocs.Number

/-- Significant digits, the first one worth `10 ^ exponent`. -/
structure Decimal where
  digits : Nat
  exponent : Int
  deriving DecidableEq, Repr

namespace Decimal

def leadingPlaces (numerator denominator : Nat) : Nat → Nat
  | 0 => 0
  | fuel + 1 =>
      if denominator ≤ numerator then 0
      else leadingPlaces (numerator * 10) denominator fuel + 1

def leadingExponent (numerator denominator : Nat) : Int :=
  if denominator ≤ numerator then (Binary64.digitCount (numerator / denominator) : Int) - 1
  else -(leadingPlaces numerator denominator 400 : Int)

def scaled (numerator denominator : Nat) (power : Int) : Nat × Nat :=
  if 0 ≤ power then (numerator, denominator * Nat.pow 10 power.toNat)
  else (numerator * Nat.pow 10 (-power).toNat, denominator)

/-- Twice the distances, in units of a quarter of the last mantissa bit, within
which a real number is read as `x`: below, above, and whether both ends count. -/
def readRange (x : Binary64) : Nat × Nat × Bool :=
  let below :=
    if x.mantissa == Nat.pow 2 52 && x.exponent > Binary64.leastExponent then 1 else 2
  (below, 2, x.mantissa % 2 == 0)

def readsBack (x : Binary64) (candidate : Nat) (power : Int) : Bool :=
  let (below, above, closed) := readRange x
  -- compare in quarters of the last mantissa bit
  let (unitN, unitD) := Binary64.ratio { x with mantissa := 1 }
  let (n, d) :=
    if 0 ≤ power then (candidate * Nat.pow 10 power.toNat, 1)
    else (candidate, Nat.pow 10 (-power).toNat)
  let value := 4 * n * unitD
  let low := (4 * x.mantissa - below) * unitN * d
  let high := (4 * x.mantissa + above) * unitN * d
  if closed then low ≤ value && value ≤ high else low < value && value < high

def stripZeros : Nat → Nat → Nat
  | 0, n => n
  | fuel + 1, n => if n != 0 && n % 10 == 0 then stripZeros fuel (n / 10) else n

def shortestFrom (x : Binary64) (lead : Int) (count : Nat) : Nat → Decimal
  | 0 => ⟨0, 0⟩
  | fuel + 1 =>
      let (numerator, denominator) := x.ratio
      let power := lead - count + 1
      let (n, d) := scaled numerator denominator power
      let lower := n / d
      let lowerFits := readsBack x lower power
      let upperFits := readsBack x (lower + 1) power
      let double := 2 * (n % d)
      let pick :=
        if lowerFits && upperFits then
          if double > d || (double == d && lower % 2 == 1) then some (lower + 1) else some lower
        else if lowerFits then some lower
        else if upperFits then some (lower + 1)
        else none
      match pick with
      | some digits =>
          ⟨stripZeros 20 digits, power + Binary64.digitCount digits - 1⟩
      | none => shortestFrom x lead (count + 1) fuel

def shortest (x : Binary64) : Decimal :=
  let (n, d) := x.ratio
  shortestFrom x (leadingExponent n d) 1 20

end Decimal

structure DecimalFormat where
  positional : Option (Int × Int)
  wholeMark : Text
  plus : Text

namespace DecimalFormat

def digitText (n : Nat) : Text :=
  Nat.toDigits 10 n

def writePositional (format : DecimalFormat) (value : Decimal) : Text :=
  let digits := digitText value.digits
  if value.exponent < 0 then
    "0." ++ List.replicate ((-value.exponent).toNat - 1) '0' ++ digits
  else
    let whole := value.exponent.toNat + 1
    if digits.length ≤ whole then
      digits ++ List.replicate (whole - digits.length) '0' ++ format.wholeMark
    else digits.take whole ++ "." ++ digits.drop whole

def writeScientific (format : DecimalFormat) (value : Decimal) : Text :=
  let digits := digitText value.digits
  let fraction := if digits.length ≤ 1 then [] else '.' :: digits.drop 1
  let sign : Text := if value.exponent < 0 then "-" else format.plus
  digits.take 1 ++ fraction ++ "e" ++ sign ++ digitText value.exponent.natAbs

def write (format : DecimalFormat) (x : Binary64) : Text :=
  let sign : Text := if x.negative then "-" else []
  if x.mantissa == 0 then sign ++ "0" ++ format.wholeMark
  else
    let value := Decimal.shortest x
    let positional :=
      match format.positional with
      | some (least, greatest) => least ≤ value.exponent && value.exponent ≤ greatest
      | none => true
    sign ++ if positional then format.writePositional value else format.writeScientific value

end DecimalFormat

def plainFormat : DecimalFormat := ⟨none, [], []⟩

def digitsValue (digits : Text) : Nat :=
  digits.foldl (fun value c => value * 10 + (c.toNat - '0'.toNat)) 0

def readExponent? : Text → Option Int
  | [] => some 0
  | mark :: rest =>
      if mark != 'e' && mark != 'E' then none
      else
        let (negative, digits) :=
          match rest with
          | '-' :: more => (true, more)
          | '+' :: more => (false, more)
          | _ => (false, rest)
        if digits.isEmpty || !digits.all Char.isDigit then none
        else
          let value : Int := digitsValue digits
          some (if negative then -value else value)

/-- Read a decimal: a sign or none, digits with a point somewhere or nowhere, an
exponent or none.  Gives nothing for a number that is too large. -/
def readDecimal? (text : Text) : Option Binary64 :=
  let (negative, rest) :=
    match text with
    | '-' :: more => (true, more)
    | '+' :: more => (false, more)
    | _ => (false, text)
  let whole := rest.takeWhile Char.isDigit
  let rest := rest.drop whole.length
  let (fraction, rest) :=
    match rest with
    | '.' :: more => (more.takeWhile Char.isDigit, more.dropWhile Char.isDigit)
    | _ => ([], rest)
  if whole.isEmpty && fraction.isEmpty then none
  else
    (readExponent? rest).bind fun exponent =>
      Binary64.ofDecimal? negative (digitsValue (whole ++ fraction)) (exponent - fraction.length)

end ComponentDocs.Number
