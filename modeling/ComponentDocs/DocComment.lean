import ComponentDocs.Text.Basic

/-!
Documentation comments: a summary, and tags for parameters and the result.

A tag starts a line with an at sign; the lines behind it, up to the next tag,
continue its text.
-/

namespace ComponentDocs

structure ParameterTag where
  name : Text
  typeHint : Option Text
  description : Option Text
  deriving DecidableEq, Repr, Inhabited

structure DocComment where
  summary : Option Text := none
  parameters : List ParameterTag := []
  resultType : Option Text := none
  deriving DecidableEq, Repr, Inhabited

namespace DocComment

def parameter? (doc : DocComment) (name : Text) : Option ParameterTag :=
  doc.parameters.find? fun tag => tag.name == name

/-- A line without the star at its start. -/
def stripGutter (line : Text) : Text :=
  match Text.trim line with
  | '*' :: rest => Text.trimStart rest
  | trimmed => trimmed

/-- The lines before the first tag, and each tag with the lines that continue it. -/
def splitTags : List Text → List Text × List (Text × List Text)
  | [] => ([], [])
  | line :: rest =>
      let (free, tags) := splitTags rest
      match line with
      | '@' :: tagged => ([], (tagged, free) :: tags)
      | _ => (line :: free, tags)

def joinLines (lines : List Text) : Text :=
  Text.join " " (lines.filter fun line => !line.isEmpty)

def nonempty? (text : Text) : Option Text :=
  if text.isEmpty then none else some text

def cutAtBlank (text : Text) : Text × Text :=
  (Text.cutAt? Text.isSpace text).getD (text, [])

def bracedType (text : Text) : Option Text × Text :=
  match text with
  | '\x7b' :: inner =>
      match Text.cutAt? (· == '\x7d') inner with
      | some (type, rest) => (nonempty? (Text.trim type), Text.trimStart rest)
      | none => (none, text)
  | _ => (none, text)

/-- The name in `[name=value]`. -/
def bareName (text : Text) : Text :=
  (text.dropWhile (· == '[')).takeWhile fun c => c != '=' && c != ']'

def ParameterTag.ofText? (text : Text) : Option ParameterTag :=
  let (typeHint, rest) := bracedType text
  let (name, description) := cutAtBlank rest
  let name := bareName name
  if name.isEmpty then none
  else
    let description := Text.trim ((Text.trim description).dropWhile (· == '-'))
    some { name, typeHint, description := nonempty? description }

def isParameterWord (word : Text) : Bool :=
  word == "param".toList || word == "arg".toList || word == "argument".toList

def isResultWord (word : Text) : Bool :=
  word == "returns".toList || word == "return".toList

/-- Add what a tag says.  Of two result tags the last one counts. -/
def addTag (doc : DocComment) (word text : Text) : DocComment :=
  if isParameterWord word then
    { doc with parameters := doc.parameters ++ (ParameterTag.ofText? text).toList }
  else if isResultWord word then { doc with resultType := (bracedType text).1 }
  else doc

def parse (content : Text) : DocComment :=
  let (free, tags) := splitTags ((Text.lines content).map stripGutter)
  let doc : DocComment := { summary := nonempty? (joinLines free) }
  tags.foldl
    (fun doc (tagged, lines) =>
      let (word, text) := cutAtBlank tagged
      doc.addTag word (joinLines (Text.trim text :: lines)))
    doc

end DocComment

end ComponentDocs
