import ComponentDocs.Options.Load
import ComponentDocs.Proofs.Stability
import ComponentDocs.Proofs.Visibility
import ComponentDocs.Proofs.Catalog
import ComponentDocs.Proofs.Provenance
import ComponentDocs.Proofs.Props
import ComponentDocs.Proofs.Analysis.Failures
import ComponentDocs.Proofs.Analysis.Repetition
import ComponentDocs.Proofs.Log
import ComponentDocs.Proofs.Document
import ComponentDocs.Proofs.Component.Calls
import ComponentDocs.Proofs.TypeText.Lines
import ComponentDocs.Proofs.TypeText.RoundTrip
import ComponentDocs.Proofs.Fallback.Declarations
import ComponentDocs.Proofs.Component.Attributes
import ComponentDocs.Proofs.Fallback.Parameters
import ComponentDocs.Proofs.Fallback.Functions
import ComponentDocs.Proofs.Component.Defaults
import ComponentDocs.Proofs.DocComment.Delimiters
import ComponentDocs.Proofs.Types.References
import ComponentDocs.Proofs.Workspace.Locations
import ComponentDocs.Proofs.Component.Description
import ComponentDocs.Proofs.Fallback.Quotes
import ComponentDocs.Proofs.Sections.Cutting
