/-!
Sets of code points, given by the lengths of the runs outside and inside in turn.
-/

namespace ComponentDocs.Text

def inRuns : List Nat → Nat → Bool
  | outside :: inside :: runs, code =>
      if code < outside then false
      else if code < outside + inside then true
      else inRuns runs (code - (outside + inside))
  | _, _ => false

end ComponentDocs.Text
