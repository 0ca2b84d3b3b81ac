import ComponentDocs.Text.Basic

/-!
The sections of a component file: the scripts, the style and the template around
them.

At most one instance script, one module script and one style block are
recognised; later blocks of the same kind stay in the template, and so does what
is not closed.
-/

namespace ComponentDocs

/-- A block from its opening tag to the end of its closing tag. -/
structure Block where
  start : Nat
  stop : Nat
  attributes : Text
  content : Text
  deriving DecidableEq, Repr, Inhabited

namespace Block

def endsTagName : Text → Bool
  | [] => false
  | c :: _ => c == ' ' || c == '\t' || c == '\n' || c == '\r' || c == '>' || c == '/'

/-- The attributes of a tag and what follows its closing angle.  An angle inside
quotes does not close it. -/
def cutTag : Option Char → Text → Option (Text × Text)
  | _, [] => none
  | none, c :: rest =>
      if c == '>' then some ([], rest)
      else
        let quote := if c == '"' || c == '\'' then some c else none
        (cutTag quote rest).map fun (inside, behind) => (c :: inside, behind)
  | some quote, c :: rest =>
      (cutTag (if c == quote then none else some quote) rest).map fun (inside, behind) =>
        (c :: inside, behind)

def openingTag (name : Text) : Text :=
  '<' :: name

def closingTag (name : Text) : Text :=
  "</" ++ name ++ ">"

inductive Outcome where
  | other
  /-- A tag that is not closed; nothing behind it is looked at. -/
  | unclosed
  | block (found : Block)

def ofTag (name : Text) (position : Nat) (text : Text) : Outcome :=
  match cutTag none text with
  | none => .unclosed
  | some (attributes, behind) =>
      let contentStart := position + (openingTag name).length + attributes.length + 1
      if attributes.getLast? == some '/' then
        .block
          ⟨position, contentStart, Text.dropEndWhile (· == '/') attributes, []⟩
      else
        match Text.cut? (closingTag name) behind with
        | none => .unclosed
        | some (content, _) =>
            .block
              ⟨position, contentStart + content.length + (closingTag name).length, attributes,
                content⟩

def scan (name : Text) (position : Nat) (text : Text) : Outcome :=
  match Text.after? (openingTag name) text with
  | none => .other
  | some behind => if endsTagName behind then ofTag name position behind else .other

/-- All blocks of a tag, one behind the other.  `skip` counts characters that belong
to a block already found. -/
def allFrom (name : Text) : Nat → Nat → Text → List Block
  | _, _, [] => []
  | skip + 1, position, _ :: rest => allFrom name skip (position + 1) rest
  | 0, position, c :: rest =>
      match scan name position (c :: rest) with
      | .other => allFrom name 0 (position + 1) rest
      | .unclosed => []
      | .block found =>
          found :: allFrom name (found.stop - position - 1) (position + 1) rest

def all (name source : Text) : List Block :=
  allFrom name 0 0 source

def holds (block : Block) (position : Nat) : Bool :=
  block.start ≤ position && position < block.stop

/-- The first block of a tag that does not start inside one of the given blocks.  A
block that does is passed over together with the block around it. -/
def firstOutside (name : Text) (around : List Block) : Nat → Nat → Text → Option Block
  | _, _, [] => none
  | skip + 1, position, _ :: rest => firstOutside name around skip (position + 1) rest
  | 0, position, c :: rest =>
      match scan name position (c :: rest) with
      | .other => firstOutside name around 0 (position + 1) rest
      | .unclosed => none
      | .block found =>
          match around.find? fun block => block.holds position with
          | some outer =>
              firstOutside name around (outer.stop - position - 1) (position + 1) rest
          | none => some found

/-- Whether a script belongs to the module rather than to an instance. -/
def isModule (block : Block) : Bool :=
  Text.contains "context=\"module\"" block.attributes ||
    Text.contains "context='module'" block.attributes ||
    (Text.words block.attributes).contains "module".toList

def defaultLanguage : Text := "js"

/-- A value up to its closing quote, or up to a blank or angle. -/
def attributeValue : Text → Text
  | [] => []
  | c :: rest =>
      if c == '"' || c == '\'' then
        match Text.cutAt? (· == c) rest with
        | some (value, _) => value
        | none => []
      else (c :: rest).takeWhile fun d => !(Text.isSpace d || d == '>')

def language (block : Block) : Text :=
  match Text.cut? "lang=" block.attributes with
  | none => defaultLanguage
  | some (_, behind) =>
      let value := attributeValue (Text.trimStart behind)
      if value.isEmpty then defaultLanguage else value

end Block

/-- The blocks of a source that are no template. -/
structure Blocks where
  instanceScript : Option Block
  moduleScript : Option Block
  style : Option Block

namespace Blocks

def ofSource (source : Text) : Blocks :=
  let scripts := Block.all "script" source
  let instanceScript := scripts.find? fun block => !block.isModule
  let moduleScript := scripts.find? Block.isModule
  let around := scripts.filter fun block =>
    some block == instanceScript || some block == moduleScript
  ⟨instanceScript, moduleScript, Block.firstOutside "style" around 0 0 source⟩

def insert (block : Block) : List Block → List Block
  | [] => [block]
  | first :: rest =>
      if block.start ≤ first.start then block :: first :: rest else first :: insert block rest

def sorted (blocks : Blocks) : List Block :=
  (blocks.instanceScript.toList ++ blocks.moduleScript.toList ++ blocks.style.toList).foldr
    insert []

end Blocks

/-- The source without blocks, from a position on.  A block that starts before the
position is ignored. -/
def withoutBlocks (source : Text) (position : Nat) : List Block → Text
  | [] => source.drop position
  | block :: rest =>
      if block.start < position then withoutBlocks source position rest
      else
        (source.drop position).take (block.start - position) ++
          withoutBlocks source block.stop rest

structure Sections where
  script : Text
  language : Text
  moduleScript : Text
  template : Text
  style : Text
  deriving DecidableEq, Repr

def Sections.ofSource (source : Text) : Sections :=
  let blocks := Blocks.ofSource source
  let content (block : Option Block) : Text := (block.map Block.content).getD []
  { script := content blocks.instanceScript
    language := (blocks.instanceScript.map Block.language).getD Block.defaultLanguage
    moduleScript := content blocks.moduleScript
    template := withoutBlocks source 0 blocks.sorted
    style := content blocks.style }

def Sections.hasScript (sections : Sections) : Bool :=
  !Text.isBlank sections.script

end ComponentDocs
