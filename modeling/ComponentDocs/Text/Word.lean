import ComponentDocs.Text.Identifier

/-!
Word characters: letters, marks, decimal digits, connector punctuation and
join controls.
-/

namespace ComponentDocs.Text

def wordOnlyRuns : List Nat :=
  [1160, 2, 5684, 1, 1566, 4, 1, 3, 977, 52, 2373, 1, 30784, 3, 84669, 26, 6, 26, 6, 26]

def nameOnlyRuns : List Nat :=
  [183, 1, 719, 1, 4065, 9, 1640, 1, 1853, 1, 21, 1, 3948, 2]

def isWord (c : Char) : Bool :=
  if c.toNat < 128 then c.isAlphanum || c == '_'
  else inRuns wordOnlyRuns c.toNat || (isNamePart c && !inRuns nameOnlyRuns c.toNat)

end ComponentDocs.Text
