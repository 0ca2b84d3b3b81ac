/-!
Finite binary floating-point numbers with 53 significant bits.

A number is a sign, a mantissa and a binary exponent, all exact, and every
operation rounds the exact result once, to the nearest number and to an even
mantissa when two are equally near.
-/

namespace ComponentDocs.Number

/-- The number `mantissa * 2 ^ exponent`, negated if `negative`.  In canonical form
the mantissa has 53 bits, or the exponent is the least one. -/
structure Binary64 where
  negative : Bool
  mantissa : Nat
  exponent : Int
  deriving DecidableEq, Repr, Inhabited

namespace Binary64

def leastExponent : Int := -1074

def greatestExponent : Int := 971

def zero : Binary64 := ⟨false, 0, leastExponent⟩

def scaled (numerator denominator : Nat) (exponent : Int) : Nat × Nat :=
  if 0 ≤ exponent then (numerator, denominator * Nat.pow 2 exponent.toNat)
  else (numerator * Nat.pow 2 (-exponent).toNat, denominator)

def divideNearest (numerator denominator : Nat) : Nat :=
  let quotient := numerator / denominator
  let double := 2 * (numerator % denominator)
  if double > denominator || (double == denominator && quotient % 2 == 1) then quotient + 1
  else quotient

/-- The exponent under which the quotient has at most 53 bits and, above the
least exponent, no fewer. -/
def exponentFor (numerator denominator : Nat) : Int :=
  let guess := max ((numerator.log2 : Int) - denominator.log2 - 53) leastExponent
  let (n, d) := scaled numerator denominator guess
  if n / d < Nat.pow 2 53 then guess else guess + 1

def ofRatio? (negative : Bool) (numerator denominator : Nat) : Option Binary64 :=
  if numerator == 0 then some { zero with negative }
  else
    let exponent := exponentFor numerator denominator
    let (n, d) := scaled numerator denominator exponent
    let mantissa := divideNearest n d
    let (mantissa, exponent) :=
      if mantissa == Nat.pow 2 53 then (Nat.pow 2 52, exponent + 1) else (mantissa, exponent)
    if exponent > greatestExponent then none else some ⟨negative, mantissa, exponent⟩

def ofNat? (n : Nat) : Option Binary64 :=
  ofRatio? false n 1

def ratio (x : Binary64) : Nat × Nat :=
  if 0 ≤ x.exponent then (x.mantissa * Nat.pow 2 x.exponent.toNat, 1)
  else (x.mantissa, Nat.pow 2 (-x.exponent).toNat)

def multiply? (x y : Binary64) : Option Binary64 :=
  let (a, b) := x.ratio
  let (c, d) := y.ratio
  ofRatio? (x.negative != y.negative) (a * c) (b * d)

def divide? (x y : Binary64) : Option Binary64 :=
  let (a, b) := x.ratio
  let (c, d) := y.ratio
  ofRatio? (x.negative != y.negative) (a * d) (b * c)

def digitCount (n : Nat) : Nat :=
  (Nat.toDigits 10 n).length

def ofDecimal? (negative : Bool) (digits : Nat) (exponent : Int) : Option Binary64 :=
  let place := (digitCount digits : Int) + exponent
  if digits == 0 || place < -400 then some { zero with negative }
  else if place > 400 then none
  else if 0 ≤ exponent then ofRatio? negative (digits * Nat.pow 10 exponent.toNat) 1
  else ofRatio? negative digits (Nat.pow 10 (-exponent).toNat)

def wholeMagnitude? (x : Binary64) : Option Nat :=
  let (n, d) := x.ratio
  if n % d == 0 then some (n / d) else none

end Binary64

end ComponentDocs.Number
