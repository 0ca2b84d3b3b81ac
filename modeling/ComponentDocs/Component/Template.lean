import ComponentDocs.Component.Record
import ComponentDocs.Dictionary
import ComponentDocs.Options
import ComponentDocs.Text.Scan

/-!
What a template tells about a component: slots, rendered snippets, dispatched
events and a description.
-/

namespace ComponentDocs.Component

def startsAttribute (c : Char) : Bool :=
  Text.isAsciiLetter c || c == '_' || c == ':'

def continuesAttribute (c : Char) : Bool :=
  Text.isWord c || c == ':' || c == '.' || c == '-'

def isBareValue (c : Char) : Bool :=
  !(Text.isSpace c || c == '"' || c == '\'' || c == '>' || c == '/')

def bareValue? (text : Text) : Option (Text × Text) :=
  let value := text.takeWhile isBareValue
  if value.isEmpty then none else some (value, text.drop value.length)

def attributeValue? (text : Text) : Option (Text × Text) :=
  match text with
  | '"' :: rest => Text.until? '"' rest
  | '\'' :: rest => Text.until? '\'' rest
  | '\x7b' :: rest => (Text.until? '\x7d' rest).orElse fun _ => bareValue? text
  | _ => bareValue? text

def assignedValue? (text : Text) : Option (Text × Text) :=
  match Text.trimStart text with
  | '=' :: rest => attributeValue? (Text.trimStart rest)
  | _ => none

/-- The attribute at the start of a text: its name, its value if it has one, and
the number of characters. -/
def attributeAt? (text : Text) : Option (Text × Option Text × Nat) :=
  match text with
  | [] => none
  | c :: rest =>
      if startsAttribute c then
        let name := c :: rest.takeWhile continuesAttribute
        let behind := rest.dropWhile continuesAttribute
        match assignedValue? behind with
        | some (value, behind) => some (name, some value, text.length - behind.length)
        | none => some (name, none, name.length)
      else none

/-- The attributes in a text.  `skip` counts characters that belong to an attribute
already found. -/
def attributesFrom : Nat → Text → List (Text × Option Text)
  | _, [] => []
  | skip + 1, _ :: rest => attributesFrom skip rest
  | 0, c :: rest =>
      match attributeAt? (c :: rest) with
      | some (name, value, count) => (name, value) :: attributesFrom (count - 1) rest
      | none => attributesFrom 0 rest

/-- The attributes in a text.  One without a value has its name for a value. -/
def attributes (text : Text) : List (Text × Text) :=
  (attributesFrom 0 text).map fun (name, value) => (name, (value.map Text.trim).getD name)

def Slot.ofAttributes (found : List (Text × Text)) : Slot :=
  let isName := fun (entry : Text × Text) => entry.1 == "name".toList
  let names := found.filter isName
  let others := found.filter fun entry => !isName entry
  let sorted := Dictionary.ofList others
  { name := (names.getLast?.map (·.2)).getD "default"
    attributes := if sorted.isEmpty then none else some sorted }

def isTagEnd (text : Text) : Bool :=
  Text.isBlank text || (text.getLast? == some '/' && Text.isBlank text.dropLast)

/-- The attributes in the inside of a slot tag, without blanks and a slash at its
end.  Something other than attributes may not follow the tag name. -/
def slotAttributes? (inside : Text) : Option Text :=
  match inside with
  | [] => some []
  | c :: rest =>
      if Text.isSpace c then
        ((Text.cuts (fun _ => true) rest).find? fun (_, behind) => isTagEnd behind).map
          fun (before, _) => c :: before
      else if rest.isEmpty && c == '/' then some []
      else none

def slotTagAt? (text : Text) : Option (Text × Nat) :=
  (Text.after? "<slot" text).bind fun behind =>
    (Text.until? '>' behind).bind fun (inside, _) =>
      (slotAttributes? inside).map fun found => (found, inside.length + 6)

def slotTags : Nat → Text → List Text
  | _, [] => []
  | skip + 1, _ :: rest => slotTags skip rest
  | 0, c :: rest =>
      match slotTagAt? (c :: rest) with
      | some (found, count) => found :: slotTags (count - 1) rest
      | none => slotTags 0 rest

def renderAt? (text : Text) : Option (Text × Nat) := do
  let behind ← Text.after? "\x7b@render" text
  let behind ← Text.afterBlanks? behind
  let (name, behind) ← Text.identifier? behind
  let behind := Text.trimStart (Text.afterOptional "?." (Text.trimStart behind))
  let behind ← Text.after? "(" behind
  return (name, text.length - behind.length)

def renders : Nat → Text → List Text
  | _, [] => []
  | skip + 1, _ :: rest => renders skip rest
  | 0, c :: rest =>
      match renderAt? (c :: rest) with
      | some (name, count) => name :: renders (count - 1) rest
      | none => renders 0 rest

/-- Add a slot.  One of a known name only supplies attributes that are missing. -/
def addSlot : List Slot → Slot → List Slot
  | [], slot => [slot]
  | known :: rest, slot =>
      if known.name == slot.name then
        (if known.attributes.isNone then { known with attributes := slot.attributes } else known) ::
          rest
      else known :: addSlot rest slot

def templateSlots (template : Text) : List Slot :=
  let tagged := (slotTags 0 template).map fun found => Slot.ofAttributes (attributes found)
  let rendered := (renders 0 template).map fun name => { name : Slot }
  (tagged ++ rendered).foldl addSlot []

/-- A name in quotes, of at least one character.  Between grave accents there is no
dollar sign. -/
def quotedName? (text : Text) : Option (Text × Text) :=
  match text with
  | quote :: rest =>
      if quote == '"' || quote == '\'' || quote == '\x60' then
        match Text.until? quote rest with
        | some (name, behind) =>
            if name.isEmpty || (quote == '\x60' && name.any (· == '$')) then none
            else some (name, behind)
        | none => none
      else none
  | [] => none

def dispatchAt? (function : Text) (text : Text) : Option (Text × Nat) := do
  let behind ← Text.after? function text
  let behind ← Text.after? "(" (Text.trimStart behind)
  let (name, behind) ← quotedName? (Text.trimStart behind)
  return (name, text.length - behind.length)

/-- The events that calls of the function dispatch, each call with its own.  A call
starts at a word boundary. -/
def dispatches (function : Text) : Option Char → Nat → Text → List Text
  | _, _, [] => []
  | _, skip + 1, c :: rest => dispatches function (some c) skip rest
  | previous, 0, c :: rest =>
      match
        if Text.atBoundary previous (c :: rest) then dispatchAt? function (c :: rest) else none
      with
      | some (name, count) => name :: dispatches function (some c) (count - 1) rest
      | none => dispatches function (some c) 0 rest

def dispatchedEvents (options : Options) (template script : Text) : List Event :=
  let names := [template, script].flatMap (dispatches options.dispatchFunction none 0)
  (Text.firstOccurrences names).map Event.dispatched

def commentAt? (text : Text) : Option Text := do
  let behind ← Text.after? "<!--" text
  let behind ← Text.after? "@component" (Text.trimStart behind)
  if Text.startsWord behind then none
  else
    let (content, _) ← Text.cut? "-->" behind
    return content

def comment? : Text → Option Text
  | [] => none
  | c :: rest => (commentAt? (c :: rest)).orElse fun _ => comment? rest

def dropBytes? : Nat → Text → Option Text
  | 0, text => some text
  | _ + 1, [] => none
  | count + 1, c :: rest =>
      if c.utf8Size ≤ count + 1 then dropBytes? (count + 1 - c.utf8Size) rest else none

def indentation (line : Text) : Nat :=
  Text.byteCount (line.takeWhile Text.isSpace)

def commonIndentation (lines : List Text) : Nat :=
  (((lines.filter fun line => !Text.isBlank line).map indentation).min?).getD 0

def dedent (lines : List Text) : Text :=
  let indent := commonIndentation lines
  Text.trim (Text.join "\n"
    (lines.map fun line => (dropBytes? indent line).getD (Text.trimStart line)))

def templateDescription (template : Text) : Option Text :=
  (comment? template).bind fun content =>
    let text := dedent ((Text.lines content).map Text.trimEnd)
    if text.isEmpty then none else some text

structure TemplateApi where
  slots : List Slot
  events : List Event
  description : Option Text
  deriving DecidableEq, Repr

def TemplateApi.scan (options : Options) (template script : Text) : TemplateApi :=
  { slots := templateSlots template
    events := dispatchedEvents options template script
    description := templateDescription template }

end ComponentDocs.Component
