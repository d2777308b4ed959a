import GraphQuery.Connection
import GraphQuery.Report
import GraphQuery.Selection.Graph
import GraphQuery.Selection.Walk
import GraphQuery.Proofs.Connection.Settling
import GraphQuery.Proofs.Connection.Shrinking
import GraphQuery.Proofs.Connection.Places
import GraphQuery.Proofs.Document.Word
import GraphQuery.Proofs.Graph.Chars
import GraphQuery.Proofs.Graph.Readability
import GraphQuery.Proofs.Document.Lexing
import GraphQuery.Proofs.Document.Steps
import GraphQuery.Proofs.Document.Agreement
import GraphQuery.Proofs.Graph.Meaning
import GraphQuery.Proofs.Graph.Decoding
import GraphQuery.Proofs.Operation.Reading
import GraphQuery.Proofs.Operation.RoundTrip
import GraphQuery.Proofs.Graph.Outline
import GraphQuery.Proofs.Limits.Enforcement
import GraphQuery.Proofs.Surface.Grammar
import GraphQuery.Proofs.Datum.Order
import GraphQuery.Proofs.Surface.Finiteness
import GraphQuery.Proofs.Surface.Writings
import GraphQuery.Proofs.Selection.Paths
import GraphQuery.Proofs.Graph.WellFormed
import GraphQuery.Proofs.Surface.Invariant
import GraphQuery.Proofs.Graph.SurfaceForm
import GraphQuery.Proofs.Surface.Placement
import GraphQuery.Proofs.Surface.Replacement
import GraphQuery.Proofs.Operation.Calls
import GraphQuery.Proofs.Selection.Keeping
import GraphQuery.Proofs.Limits.Decision
import GraphQuery.Proofs.Document.Declarations
import GraphQuery.Proofs.Operation.Declaring
import GraphQuery.Proofs.Connection.Leaves
import GraphQuery.Proofs.Surface.TagRuns
import GraphQuery.Proofs.Selection.Truncation
import GraphQuery.Proofs.Document.Quoting
import GraphQuery.Proofs.Operation.Strings
import GraphQuery.Proofs.Operation.Naming
import GraphQuery.Proofs.Surface.Faults
