import ComponentDocs.Text.Basic

/-!
Failures that are recorded while the work goes on.
-/

namespace ComponentDocs

inductive FailureKind where
  | parsing
  | typing
  | importing
  | unknown
  deriving DecidableEq, Repr

namespace FailureKind

def word : FailureKind → Text
  | .parsing => "syntax"
  | .typing => "type"
  | .importing => "import"
  | .unknown => "unknown"

def all : List FailureKind := [.parsing, .typing, .importing, .unknown]

end FailureKind

structure Failure where
  file : Text
  message : Text
  kind : FailureKind
  deriving DecidableEq, Repr

namespace Failure

def ofDiagnostics (file : Text) (diagnostics : List Text) : Failure :=
  { file, message := Text.join "; " diagnostics, kind := .parsing }

def unparsed (file : Text) : Failure :=
  ofDiagnostics file ["unexpected token".toList]

def describe (failure : Failure) : Text :=
  failure.kind.word ++ " error in '" ++ failure.file ++ "': " ++ failure.message

end Failure

end ComponentDocs
