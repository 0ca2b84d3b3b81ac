import ComponentDocs.Toml.Quoted
import ComponentDocs.Toml.Scalar
import ComponentDocs.Toml.Tree

/-!
Reading TOML documents.
-/

namespace ComponentDocs.Toml

def isBareKey (c : Char) : Bool :=
  c.isAlphanum || c == '_' || c == '-'

def keyPart? (text : Text) : Option (Text × Text) :=
  let bare := text.takeWhile isBareKey
  if bare.isEmpty then lineString? text else some (bare, text.drop bare.length)

def key? : Nat → Text → Option (List Text × Text)
  | 0, _ => none
  | fuel + 1, text =>
      match keyPart? (skipBlanks text) with
      | none => none
      | some (part, rest) =>
          match skipBlanks rest with
          | '.' :: more => (key? fuel more).map fun (parts, behind) => (part :: parts, behind)
          | behind => some ([part], behind)

def nestingLimit : Nat := 79

def splitKey? (parts : List Text) : Option (List Text × Text) :=
  if parts.length ≤ nestingLimit then parts.getLast?.map fun last => (parts.dropLast, last)
  else none

def wholeKey? (text : Text) : Option (List Text × Text × Text) := do
  let (parts, rest) ← key? (text.length + 1) text
  let (path, last) ← splitKey? parts
  return (path, last, rest)

def inlineTable? (pairs : List (List Text × Text × Value)) : Option Value :=
  (pairs.foldlM
    (fun (entries : Entries) (path, key, value) => entries.addDotted key value true path)
    []).map fun entries => .table (entriesToValues entries)

mutual

def value? : Nat → Nat → Text → Option (Value × Text)
  | 0, _, _ => none
  | fuel + 1, depth, text =>
      match text with
      | '"' :: _ | '\'' :: _ => (string? text).map fun (value, behind) => (.text value, behind)
      | '[' :: rest =>
          if depth == 0 then none
          else (items? fuel (depth - 1) rest).map fun (items, behind) => (.list items, behind)
      | '\x7b' :: rest =>
          if depth == 0 then none
          else
            match skipBlanks rest with
            | '\x7d' :: behind => some (.table [], behind)
            | _ =>
                (pairs? fuel (depth - 1) rest).bind fun (pairs, behind) =>
                  (inlineTable? pairs).map fun value => (value, behind)
      | _ =>
          let (spelling, behind) := cutBareValue text
          (bareValue? spelling).map fun value => (value, behind)

def items? : Nat → Nat → Text → Option (List Value × Text)
  | 0, _, _ => none
  | fuel + 1, depth, text =>
      match skipVoid false text with
      | none => none
      | some (']' :: behind) => some ([], behind)
      | some text =>
          match value? fuel depth text with
          | none => none
          | some (item, rest) =>
              match skipVoid false rest with
              | some (',' :: more) =>
                  (items? fuel depth more).map fun (items, behind) => (item :: items, behind)
              | some (']' :: behind) => some ([item], behind)
              | _ => none

def pairs? : Nat → Nat → Text → Option (List (List Text × Text × Value) × Text)
  | 0, _, _ => none
  | fuel + 1, depth, text =>
      match wholeKey? text with
      | some (path, key, '=' :: rest) =>
          match value? fuel depth (skipBlanks rest) with
          | none => none
          | some (value, rest) =>
              match skipBlanks rest with
              | ',' :: more =>
                  (pairs? fuel depth more).map fun (pairs, behind) =>
                    ((path, key, value) :: pairs, behind)
              | '\x7d' :: behind => some ([(path, key, value)], behind)
              | _ => none
      | _ => none

end

structure Progress where
  entries : Entries := []
  path : List Text := []

def header? (progress : Progress) (text : Text) : Option (Progress × Text) :=
  match text with
  | '[' :: rest => do
      let (path, key, rest) ← wholeKey? rest
      let behind ← Text.after? "]]" rest
      let entries ← Entries.change (Entries.openElement key) path progress.entries
      return ({ entries, path := path ++ [key] }, behind)
  | _ => do
      let (path, key, rest) ← wholeKey? text
      let behind ← afterMark? ']' rest
      let entries ← Entries.change (Entries.openTable key) path progress.entries
      return ({ entries, path := path ++ [key] }, behind)

def assignment? (progress : Progress) (text : Text) : Option (Progress × Text) := do
  let (path, key, rest) ← wholeKey? text
  let (value, behind) ←
    value? (2 * text.length + 2) nestingLimit (skipBlanks (← afterMark? '=' rest))
  let entries ←
    Entries.change (Entries.addDotted key value true path) progress.path progress.entries
  return ({ progress with entries }, behind)

def lines? : Nat → Progress → Text → Option Entries
  | 0, _, _ => none
  | fuel + 1, progress, text =>
      match skipVoid false text with
      | none => none
      | some [] => some progress.entries
      | some (c :: rest) =>
          match if c == '[' then header? progress rest else assignment? progress (c :: rest) with
          | none => none
          | some (next, behind) => (afterLine? behind).bind (lines? fuel next)

def read? (text : Text) : Option (List (Text × Value)) :=
  let text := if text.head? == some (Char.ofNat 0xfeff) then text.drop 1 else text
  (lines? (text.length + 1) {} text).map entriesToValues

end ComponentDocs.Toml
