import ComponentDocs.Text.Basic

/-!
Paths of files, as text with slashes.
-/

namespace ComponentDocs.Path

inductive Component where
  | root
  | current
  | parent
  | normal (name : Text)
  deriving DecidableEq, Repr

def pieces (path : Text) : List Text :=
  Text.pieces '/' path

/-- The step that a piece stands for.  Empty pieces and single points stand for
none. -/
def Component.ofPiece? (piece : Text) : Option Component :=
  if piece.isEmpty || piece == ['.'] then none
  else if piece == ['.', '.'] then some .parent
  else some (.normal piece)

def isAbsolute : Text → Bool
  | '/' :: _ => true
  | _ => false

/-- The steps of a path.  Only at its start does a single point count. -/
def components (path : Text) : List Component :=
  let steps := (pieces path).filterMap Component.ofPiece?
  if isAbsolute path then .root :: steps
  else if (pieces path).head? == some ['.'] then .current :: steps
  else steps

def fileName? (path : Text) : Option Text :=
  match (components path).getLast? with
  | some (.normal name) => some name
  | _ => none

/-- A file name cut at its last point.  A point at its start does not count. -/
def cutExtension (name : Text) : Text × Option Text :=
  match Text.cutAt? (· == '.') name.reverse with
  | some (extension, stem) =>
      if stem.isEmpty then (name, none) else (stem.reverse, some extension.reverse)
  | none => (name, none)

def stem? (path : Text) : Option Text :=
  (fileName? path).map fun name => (cutExtension name).1

def extension? (path : Text) : Option Text :=
  (fileName? path).bind fun name => (cutExtension name).2

end ComponentDocs.Path
