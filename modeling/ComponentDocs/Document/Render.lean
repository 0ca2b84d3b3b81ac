import ComponentDocs.Document.Encode
import ComponentDocs.Json.Write

/-!
Documentation as a JSON text.
-/

namespace ComponentDocs

def version : Text := "0.4.1"

def documentJson (generatedAt : Text) (docs : List ComponentDoc) : Json :=
  .object
    [("version".toList, .string version), ("generatedAt".toList, .string generatedAt),
      ("components".toList, .array (docs.map ComponentDoc.toJson))]

def renderDocument (generatedAt : Text) (docs : List ComponentDoc) : Text :=
  (documentJson generatedAt docs).pretty

end ComponentDocs
