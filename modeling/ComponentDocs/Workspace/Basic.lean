import ComponentDocs.Path.Clean

/-!
Files that can be read.

A flat workspace is a table of files: two paths name one file when they have the
same steps.  A nested workspace has directories, and a path is followed from its
top.
-/

namespace ComponentDocs

inductive ReadProblem where
  | directory
  | notDirectory
  | notText
  deriving DecidableEq, Repr

def ReadProblem.describe : ReadProblem → Text
  | .directory => "Is a directory (os error 21)"
  | .notDirectory => "Not a directory (os error 20)"
  | .notText => "stream did not contain valid UTF-8"

inductive ReadError where
  | missing (path : Text)
  | unreadable (path : Text) (problem : ReadProblem)
  deriving DecidableEq, Repr

def ReadError.describe : ReadError → Text
  | .missing path => "no such file: " ++ path
  | .unreadable path problem => "cannot read " ++ path ++ ": " ++ problem.describe

inductive Content where
  | text (text : Text)
  | binary
  deriving DecidableEq, Repr

def Content.ofBytes (bytes : List UInt8) : Content :=
  match String.fromUTF8? ⟨bytes.toArray⟩ with
  | some decoded => .text decoded.toList
  | none => .binary

inductive Layout where
  | flat
  | nested
  deriving DecidableEq, Repr

abbrev Place := List Path.Component

structure Workspace where
  layout : Layout := .flat
  files : List (Place × Content) := []
  reads : Nat := 0
  deriving DecidableEq, Repr

namespace Workspace

inductive Entry where
  | file (content : Content)
  | directory
  | missing
  | blocked
  deriving DecidableEq, Repr

def fileAt? (workspace : Workspace) (place : Place) : Option Content :=
  (workspace.files.find? fun (other, _) => other == place).map (·.2)

def isDirectory (workspace : Workspace) (place : Place) : Bool :=
  place.isEmpty || workspace.files.any fun (other, _) => place.isPrefixOf other && other != place

def follow (workspace : Workspace) (place : Place) : List Text → Entry
  | [] => .directory
  | piece :: rest =>
      match Path.Component.ofPiece? piece with
      | some (.normal name) =>
          let next := place ++ [.normal name]
          match workspace.fileAt? next with
          | some content => if rest.isEmpty then .file content else .blocked
          | none => if workspace.isDirectory next then follow workspace next rest else .missing
      | some .parent => if place.isEmpty then .missing else follow workspace place.dropLast rest
      | _ => follow workspace place rest

def entry (workspace : Workspace) (path : Text) : Entry :=
  match workspace.layout with
  | .flat =>
      match workspace.fileAt? (Path.components path) with
      | some content => .file content
      | none => .missing
  | .nested =>
      if path.isEmpty || Path.isAbsolute path then .missing
      else workspace.follow [] (Path.pieces path)

def placeOf (workspace : Workspace) (path : Text) : Place :=
  match workspace.layout with
  | .flat => Path.components path
  | .nested => Path.clean (Path.components path)

def replaceAt (place : Place) (content : Content) :
    List (Place × Content) → List (Place × Content)
  | [] => [(place, content)]
  | (other, old) :: rest =>
      if other == place then (place, content) :: rest
      else (other, old) :: replaceAt place content rest

def insert (workspace : Workspace) (path : Text) (content : Content) : Workspace :=
  { workspace with files := replaceAt (workspace.placeOf path) content workspace.files }

def isFile (workspace : Workspace) (path : Text) : Bool :=
  match workspace.entry path with
  | .file _ => true
  | _ => false

def text? (workspace : Workspace) (path : Text) : Except ReadError Text :=
  match workspace.entry path with
  | .file (.text text) => .ok text
  | .file .binary => .error (.unreadable path .notText)
  | .directory => .error (.unreadable path .directory)
  | .blocked => .error (.unreadable path .notDirectory)
  | .missing => .error (.missing path)

/-- Reading a file is counted, whether it succeeds or not. -/
def countRead (workspace : Workspace) : Workspace :=
  { workspace with reads := workspace.reads + 1 }

end Workspace

end ComponentDocs
