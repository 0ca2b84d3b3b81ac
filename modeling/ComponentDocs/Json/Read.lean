import ComponentDocs.Json.Basic
import ComponentDocs.Number.Decimal
import ComponentDocs.Text.Code

/-!
Reading JSON text.

The reader is strict: no comments, no trailing commas, no lone surrogates.
Objects come out sorted by name, and of two fields with one name the last one
counts.  A bound limits how deep arrays and objects may nest.
-/

namespace ComponentDocs.Json

open Number

def greatestSignificand : Nat := Nat.pow 2 64 - 1

def greatestExponent : Nat := Nat.pow 2 31 - 1

def takeSignificand (value : Nat) : Text → Nat × Text
  | [] => (value, [])
  | d :: rest =>
      let next := value * 10 + (d.toNat - '0'.toNat)
      if next > greatestSignificand then (value, d :: rest) else takeSignificand next rest

def powerOfTen? (exponent : Nat) : Option Binary64 :=
  Binary64.ofDecimal? false 1 exponent

def divideByTens (value : Binary64) : Nat → Nat → Option Binary64
  | 0, _ => none
  | fuel + 1, exponent =>
      if exponent ≤ 308 then (powerOfTen? exponent).bind value.divide?
      else if value.mantissa == 0 then some value
      else
        (powerOfTen? 308).bind fun power =>
          (value.divide? power).bind fun smaller => divideByTens smaller fuel (exponent - 308)

/-- The number of a significand and a power of ten.  The significand is rounded, the
power is rounded, and so is their product or quotient. -/
def scaledNumber? (negative : Bool) (significand : Nat) (exponent : Int) : Option Binary64 :=
  (Binary64.ofNat? significand).bind fun value =>
    let scaled :=
      if exponent < 0 then divideByTens value (exponent.natAbs / 308 + 2) exponent.natAbs
      else if exponent.natAbs ≤ 308 then (powerOfTen? exponent.natAbs).bind value.multiply?
      else if significand == 0 then some value
      else none
    scaled.map fun number => { number with negative }

def splitExponent (text : Text) : Option (Bool × Text × Text) :=
  let (negative, rest) :=
    match text with
    | '-' :: more => (true, more)
    | '+' :: more => (false, more)
    | _ => (false, text)
  let digits := rest.takeWhile Char.isDigit
  if digits.isEmpty then none else some (negative, digits, rest.drop digits.length)

def readExponentPart (negative : Bool) (significand : Nat) (exponent : Int) (text : Text) :
    Option (Json × Text) :=
  match text with
  | mark :: rest =>
      if mark == 'e' || mark == 'E' then
        (splitExponent rest).bind fun (below, digits, rest) =>
          let size := digitsValue digits
          if size > greatestExponent then
            if significand != 0 && !below then none
            else some (.float { Binary64.zero with negative }, rest)
          else
            let total := if below then exponent - size else exponent + size
            (scaledNumber? negative significand total).map fun number => (.float number, rest)
      else (scaledNumber? negative significand exponent).map fun number => (.float number, text)
  | [] => (scaledNumber? negative significand exponent).map fun number => (.float number, text)

def readFractionPart (negative : Bool) (significand dropped : Nat) (text : Text) :
    Option (Json × Text) :=
  match text with
  | '.' :: rest =>
      let digits := rest.takeWhile Char.isDigit
      let behind := rest.drop digits.length
      if digits.isEmpty then none
      else
        let (significand, unread) := takeSignificand significand digits
        let places : Int := digits.length - unread.length
        readExponentPart negative significand (dropped - places) behind
  | _ => readExponentPart negative significand dropped text

/-- The number of whole digits without point and exponent.  Zero with a sign and
numbers beyond 64 bits are fractions. -/
def wholeNumber (negative : Bool) (significand : Nat) : Option Json :=
  if !negative then some (.integer significand)
  else if significand == 0 || significand > Nat.pow 2 63 then
    (Binary64.ofNat? significand).map fun number => .float { number with negative }
  else some (.integer (-significand))

def readNumber (negative : Bool) (text : Text) : Option (Json × Text) :=
  let digits := text.takeWhile Char.isDigit
  let rest := text.drop digits.length
  let (significand, unread) := takeSignificand 0 digits
  let isFraction :=
    match rest with
    | c :: _ => c == '.' || c == 'e' || c == 'E'
    | [] => false
  match digits with
  | [] => none
  | '0' :: _ :: _ => none
  | _ =>
      if isFraction || !unread.isEmpty then
        readFractionPart negative significand unread.length rest
      else (wholeNumber negative significand).map fun value => (value, rest)

def escaped? (c : Char) : Option Char :=
  if c == '"' || c == '\\' || c == '/' then some c
  else if c == 'b' then some (Char.ofNat 8)
  else if c == 'f' then some (Char.ofNat 12)
  else if c == 'n' then some '\n'
  else if c == 'r' then some '\r'
  else if c == 't' then some '\t'
  else none

def readString : Text → Option (Text × Text)
  | [] => none
  | '"' :: rest => some ([], rest)
  | '\\' :: 'u' :: a :: b :: c :: d :: '\\' :: 'u' :: e :: f :: g :: h :: rest =>
      match Text.hexNumber? 4 [a, b, c, d] with
      | none => none
      | some high =>
          if Text.isHighSurrogate high then
            match Text.hexNumber? 4 [e, f, g, h] with
            | none => none
            | some low =>
                if Text.isLowSurrogate low then
                  (readString rest).map fun (more, behind) =>
                    (Char.ofNat (Text.pairCode high low) :: more, behind)
                else none
          else if Text.isLowSurrogate high then none
          else
            (readString ('\\' :: 'u' :: e :: f :: g :: h :: rest)).map fun (more, behind) =>
              (Char.ofNat high :: more, behind)
  | '\\' :: 'u' :: a :: b :: c :: d :: rest =>
      match Text.hexNumber? 4 [a, b, c, d] with
      | none => none
      | some code =>
          if Text.isSurrogate code then none
          else (readString rest).map fun (more, behind) => (Char.ofNat code :: more, behind)
  | '\\' :: c :: rest =>
      match escaped? c with
      | none => none
      | some value => (readString rest).map fun (more, behind) => (value :: more, behind)
  | c :: rest =>
      if c.toNat < 32 || c == '\\' then none
      else (readString rest).map fun (more, behind) => (c :: more, behind)

def isBlank (c : Char) : Bool :=
  c == ' ' || c == '\t' || c == '\n' || c == '\r'

def skipBlanks (text : Text) : Text :=
  text.dropWhile isBlank

mutual

/-- A value.  `depth` is the number of brackets that may still be opened. -/
def readValue : Nat → Nat → Text → Option (Json × Text)
  | 0, _, _ => none
  | fuel + 1, depth, text =>
      match skipBlanks text with
      | [] => none
      | '"' :: rest => (readString rest).map fun (value, behind) => (.string value, behind)
      | '[' :: rest =>
          if depth == 0 then none
          else
            match skipBlanks rest with
            | ']' :: behind => some (.array [], behind)
            | _ =>
                (readItems fuel (depth - 1) rest).map fun (items, behind) => (.array items, behind)
      | '\x7b' :: rest =>
          if depth == 0 then none
          else
            match skipBlanks rest with
            | '\x7d' :: behind => some (.object [], behind)
            | _ =>
                (readFields fuel (depth - 1) rest).map fun (fields, behind) =>
                  (ofFields fields, behind)
      | '-' :: rest => readNumber true rest
      | c :: rest =>
          if c.isDigit then readNumber false (c :: rest)
          else
            match Text.after? "true" (c :: rest), Text.after? "false" (c :: rest),
              Text.after? "null" (c :: rest) with
            | some behind, _, _ => some (.bool true, behind)
            | _, some behind, _ => some (.bool false, behind)
            | _, _, some behind => some (.null, behind)
            | none, none, none => none

def readItems : Nat → Nat → Text → Option (List Json × Text)
  | 0, _, _ => none
  | fuel + 1, depth, text =>
      match readValue fuel depth text with
      | none => none
      | some (item, rest) =>
          match skipBlanks rest with
          | ',' :: more =>
              (readItems fuel depth more).map fun (items, behind) => (item :: items, behind)
          | ']' :: behind => some ([item], behind)
          | _ => none

def readFields : Nat → Nat → Text → Option (List (Text × Json) × Text)
  | 0, _, _ => none
  | fuel + 1, depth, text =>
      match skipBlanks text with
      | '"' :: rest =>
          match readString rest with
          | none => none
          | some (name, rest) =>
              match skipBlanks rest with
              | ':' :: rest =>
                  match readValue fuel depth rest with
                  | none => none
                  | some (value, rest) =>
                      match skipBlanks rest with
                      | ',' :: more =>
                          (readFields fuel depth more).map fun (fields, behind) =>
                            ((name, value) :: fields, behind)
                      | '\x7d' :: behind => some ([(name, value)], behind)
                      | _ => none
              | _ => none
      | _ => none

end

def read? (depth : Nat) (text : Text) : Option Json :=
  match readValue (2 * text.length + 2) depth text with
  | some (value, rest) => if (skipBlanks rest).isEmpty then some value else none
  | none => none

def nestingLimit : Nat := 127

end ComponentDocs.Json
