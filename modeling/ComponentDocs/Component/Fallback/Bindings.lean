import ComponentDocs.Component.Fallback.Members

/-!
Bindings of a destructured value or of parameters, recovered from their text.
-/

namespace ComponentDocs.Component

structure FoundBinding where
  isRest : Bool
  name : Text
  optional : Bool
  type : Option Text
  deriving DecidableEq, Repr

def binding? (text : Text) : Option FoundBinding :=
  let (isRest, named) :=
    match Text.after? "..." text with
    | some behind => (true, behind)
    | none => (false, text)
  (Text.identifier? named).bind fun (name, behind) =>
    let (optional, behind) := optionalMark behind
    if Text.isBlank behind then some { isRest, name, optional, type := none }
    else
      (typeBehindColon? behind).map fun type => { isRest, name, optional, type := some type }

def item? (text : Text) : Option (FoundBinding × Option Text) :=
  let (named, fallback) := splitDefault (Text.trim text)
  (binding? (Text.trim named)).map fun binding => (binding, fallback)

def entries (text : Text) : List (FoundBinding × Option Text) :=
  (splitTopLevel (· == ',') text).filterMap item?

def patternAt? (text : Text) : Option Text :=
  [("let" : Text), "const", "var"].findSome? fun word =>
    (Text.after? word text).bind fun behind => Text.after? "\x7b" (Text.trimStart behind)

/-- What follows each opening brace of a declared pattern.  `skip` counts characters
that belong to one already found. -/
def patternStarts : Option Char → Nat → Text → List Text
  | _, _, [] => []
  | _, skip + 1, c :: rest => patternStarts (some c) skip rest
  | previous, 0, c :: rest =>
      match if Text.atBoundary previous (c :: rest) then patternAt? (c :: rest) else none with
      | some behind => behind :: patternStarts (some c) (rest.length - behind.length) rest
      | none => patternStarts (some c) 0 rest

/-- What follows the type of a pattern: it goes up to the first equals sign,
and something has to be there. -/
def afterDeclaredType? (text : Text) : Option Text :=
  match Text.trimStart text with
  | ':' :: rest =>
      (Text.cutAt? (· == '=') rest).bind fun (type, behind) =>
        if type.isEmpty then none else some behind
  | '=' :: rest => some rest
  | _ => none

def opensCall (text : Text) : Bool :=
  match Text.trimStart text with
  | '(' :: _ => true
  | '<' :: rest =>
      match Text.until? '>' rest with
      | some (_, behind) => (Text.trimStart behind).head? == some '('
      | none => false
  | _ => false

def takesResult (function text : Text) : Bool :=
  match afterDeclaredType? text with
  | none => false
  | some behind =>
      (Text.longCuts Text.isSpace behind).any fun (_, called) =>
        match Text.after? function called with
        | some behind => opensCall behind
        | none => false

def destructuredTexts (function source : Text) : List Text :=
  (patternStarts none 0 source).filterMap fun behind =>
    (balancedBlock behind).bind fun (content, after) =>
      if takesResult function after then some content else none

end ComponentDocs.Component
