import ComponentDocs.Proofs.TypeText.Alias

/-!
# Writing a type and reading it again

The text of a legible alias is read again as a type of the same shape, but for type parameters, the
parameter `this` and accessors, which no text of a type says.
-/

namespace ComponentDocs.Script

end ComponentDocs.Script
