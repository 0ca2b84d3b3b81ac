import ComponentDocs.Json.Read
import ComponentDocs.Script.Tree

/-!
The values of default expressions.
-/

namespace ComponentDocs.Component

open Number Script

def fitsInteger (magnitude : Nat) : Bool :=
  magnitude < Nat.pow 2 63

/-- The value of a number.  Whole numbers of moderate size lose their point, and
there is none for a number that is too large. -/
def numberValue (number : Option Binary64) : Json :=
  match number with
  | none => .null
  | some x =>
      match x.wholeMagnitude? with
      | some magnitude =>
          if fitsInteger magnitude then
            .integer (if x.negative then -(magnitude : Int) else magnitude)
          else .float x
      | none => .float x

/-- The value of an expression that is only quoted: a number if the text is one,
otherwise the text. -/
def quotedValue (text : Text) : Json :=
  let text := Text.trim text
  match readDecimal? text with
  | some number => numberValue (some number)
  | none => .string text

def unquoted? (text : Text) : Option Text :=
  match text with
  | first :: second :: rest =>
      if (first == '"' || first == '\'' || first == '\x60') &&
          (second :: rest).getLast? == some first then
        some (second :: rest).dropLast
      else none
  | _ => none

def opensBracket : Text → Bool
  | c :: _ => c == '[' || c == '\x7b'
  | [] => false

def textValue (text : Text) : Json :=
  let text := Text.trim text
  if text == "true".toList then .bool true
  else if text == "false".toList then .bool false
  else if text == "null".toList then .null
  else
    match unquoted? text with
    | some inner => .string inner
    | none =>
        match if opensBracket text then Json.read? Json.nestingLimit text else none with
        | some value => value
        | none => quotedValue text

def stripGraves (text : Text) : Text :=
  Text.dropEndWhile (· == '\x60') (text.dropWhile (· == '\x60'))

mutual

/-- The value of an expression.  Literals and arrays and objects of values are
evaluated; everything else is quoted. -/
def exprValue (source : Text) : Expr → Json
  | .string value _ => .string value
  | .number value _ => numberValue value
  | .boolean value _ => .bool value
  | .null _ => .null
  | .template false span => .string (stripGraves (span.text source))
  | .array elements _ => .array (elementValues source elements)
  | .object properties _ => Json.ofFields (propertyValues source properties)
  | .parenthesized inner _ => exprValue source inner
  | .cast inner _ => exprValue source inner
  | .template true span | .identifier _ span | .annotated _ span | .call _ span | .member span
  | .assignment span | .logical _ span | .other span => quotedValue (span.text source)

/-- The values of array elements.  Spreads and elements left out are quoted. -/
def elementValues (source : Text) : List Script.Element → List Json
  | [] => []
  | .item value :: rest => exprValue source value :: elementValues source rest
  | .hole span :: rest | .spread _ span :: rest =>
      .string (span.text source) :: elementValues source rest

def propertyValues (source : Text) : List Property → List (Text × Json)
  | [] => []
  | .entry (.static name) value _ :: rest =>
      (name, exprValue source value) :: propertyValues source rest
  | .entry .computed _ _ :: rest | .spread _ :: rest => propertyValues source rest

end

end ComponentDocs.Component
