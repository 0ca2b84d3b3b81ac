import ComponentDocs.Text.Basic

/-!
Characters by their codes: hexadecimal digits and surrogates.
-/

namespace ComponentDocs.Text

def hexDigit? (c : Char) : Option Nat :=
  if c.isDigit then some (c.toNat - '0'.toNat)
  else if 'a' ≤ c && c ≤ 'f' then some (c.toNat - 'a'.toNat + 10)
  else if 'A' ≤ c && c ≤ 'F' then some (c.toNat - 'A'.toNat + 10)
  else none

def isHex (c : Char) : Bool :=
  (hexDigit? c).isSome

def hexNumber (digits : Text) : Nat :=
  digits.foldl (fun value c => value * 16 + (hexDigit? c).getD 0) 0

def hexNumber? (count : Nat) (text : Text) : Option Nat :=
  let digits := text.take count
  if digits.length == count && digits.all isHex then some (hexNumber digits) else none

def isHighSurrogate (code : Nat) : Bool :=
  0xd800 ≤ code && code ≤ 0xdbff

def isLowSurrogate (code : Nat) : Bool :=
  0xdc00 ≤ code && code ≤ 0xdfff

def isSurrogate (code : Nat) : Bool :=
  isHighSurrogate code || isLowSurrogate code

def pairCode (high low : Nat) : Nat :=
  0x10000 + (high - 0xd800) * 0x400 + (low - 0xdc00)

end ComponentDocs.Text
