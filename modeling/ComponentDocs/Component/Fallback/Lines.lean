import ComponentDocs.Component.Fallback.Bindings

/-!
Exported variables and functions that start a line, recovered from the text.
-/

namespace ComponentDocs.Component

def isTabOrSpace (c : Char) : Bool :=
  c == ' ' || c == '\t'

def atLineEnd : Text → Bool
  | [] => true
  | c :: _ => c == '\n'

structure FoundExport where
  name : Text
  type : Option Text
  fallback : Option Text
  deriving DecidableEq, Repr

def lineEnd? (text : Text) : Option Text :=
  (Text.longCuts Text.isSpace text).findSome? fun (_, rest) =>
    ((Text.after? ";" rest).toList ++ [rest]).findSome? fun rest =>
      (Text.longCuts isTabOrSpace rest).findSome? fun (_, rest) =>
        if atLineEnd rest then some rest else none

/-- Text behind a mark, as short as what follows allows, but not empty. -/
def markedText? {α : Type} (mark : Text) (allowed : Char → Bool) (text : Text)
    (next : Text → Text → Option α) : Option α :=
  (Text.after? mark text).bind fun behind =>
    (Text.longCuts Text.isSpace behind).findSome? fun (_, rest) =>
      (Text.cuts allowed rest).findSome? fun (found, rest) =>
        if found.isEmpty then none else next found rest

def exportFallback? (text : Text) : Option (Option Text × Text) :=
  (Text.longCuts Text.isSpace text).findSome? fun (_, rest) =>
    (markedText? "=" (fun c => c != ';' && c != '\n') rest fun found rest =>
      (lineEnd? rest).map fun rest => (some found, rest)).orElse fun _ =>
    (lineEnd? rest).map fun rest => (none, rest)

def exportType? (text : Text) : Option (Option Text × Option Text × Text) :=
  (Text.longCuts Text.isSpace text).findSome? fun (_, rest) =>
    (markedText? ":" (fun c => c != '=' && c != ';' && c != '\n') rest fun found rest =>
      (exportFallback? rest).map fun (fallback, rest) => (some found, fallback, rest)).orElse
    fun _ => (exportFallback? rest).map fun (fallback, rest) => (none, fallback, rest)

def exportAt? (line : Text) : Option (FoundExport × Text) := do
  let behind ← Text.after? "export" (line.dropWhile isTabOrSpace)
  let behind ← Text.after? "let" (← Text.afterBlanks? behind)
  let (name, behind) ← Text.identifier? (← Text.afterBlanks? behind)
  let (type, fallback, behind) ← exportType? behind
  return (⟨name, type, fallback⟩, behind)

structure FoundFunction where
  name : Text
  parameters : Text
  result : Option Text
  deriving DecidableEq, Repr

def afterWord (word text : Text) : Text :=
  ((Text.after? word text).bind Text.afterBlanks?).getD text

def afterTypeParameters (text : Text) : Text :=
  match text with
  | '<' :: rest =>
      match rest.dropWhile fun c => c != '>' && c != '(' with
      | '>' :: behind => behind
      | _ => text
  | _ => text

def resultAndBody? (text : Text) : Option (Option Text × Text) :=
  match Text.trimStart text with
  | '\x7b' :: rest => some (none, rest)
  | ':' :: rest =>
      (Text.until? '\x7b' rest).bind fun (type, behind) =>
        if type.isEmpty then none else some (some (cleanType type), behind)
  | _ => none

def functionAt? (line : Text) : Option (FoundFunction × Text) := do
  let line := afterWord "async" (afterWord "export" (line.dropWhile isTabOrSpace))
  let behind ← Text.after? "function" line
  let behind := Text.trimStart (Text.afterOptional "*" (Text.trimStart behind))
  let (name, behind) ← Text.identifier? behind
  let behind := Text.trimStart (afterTypeParameters (Text.trimStart behind))
  let (parameters, behind) ← Text.until? ')' (← Text.after? "(" behind)
  let (result, behind) ← resultAndBody? behind
  return (⟨name, parameters, result⟩, behind)

/-- What a reader finds at the starts of lines.  `skip` counts characters that belong
to something already found. -/
def atLines {α : Type} (reader : Text → Option (α × Text)) : Bool → Nat → Text → List α
  | _, _, [] => []
  | _, skip + 1, c :: rest => atLines reader (c == '\n') skip rest
  | atStart, 0, c :: rest =>
      match if atStart then reader (c :: rest) else none with
      | some (found, behind) =>
          found :: atLines reader (c == '\n') (rest.length - behind.length) rest
      | none => atLines reader (c == '\n') 0 rest

def foundExports (source : Text) : List FoundExport :=
  atLines exportAt? true 0 source

def foundFunctions (source : Text) : List FoundFunction :=
  atLines functionAt? true 0 source

end ComponentDocs.Component
