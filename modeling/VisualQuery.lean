import VisualQuery.Main
import VisualQuery.Canvas.Edit
import VisualQuery.Statement.SavedLayout
import VisualQuery.Proofs.Canvas.Planning
import VisualQuery.Proofs.Command.Ending
import VisualQuery.Proofs.Join.History
import VisualQuery.Proofs.Join.Renumbering
import VisualQuery.Proofs.Join.Sources
import VisualQuery.Proofs.Canvas.Renumbering
import VisualQuery.Proofs.Document.Loading
import VisualQuery.Proofs.Document.Renumbering
import VisualQuery.Proofs.Document.Insertion
import VisualQuery.Proofs.Catalog.Registration
import VisualQuery.Proofs.Json.Keys
import VisualQuery.Proofs.Catalog.Naming
import VisualQuery.Proofs.Catalog.Reordering
import VisualQuery.Proofs.Document.Reordering
import VisualQuery.Proofs.Catalog.Readings
import VisualQuery.Proofs.Document.Outcome
import VisualQuery.Proofs.Statement.Predicate
import VisualQuery.Proofs.Join.Lookups
import VisualQuery.Proofs.Join.Components
import VisualQuery.Proofs.Join.Comparison
import VisualQuery.Proofs.Join.Parallel
import VisualQuery.Proofs.Join.Kinds
import VisualQuery.Proofs.Join.Orientation
import VisualQuery.Proofs.Join.Chains
import VisualQuery.Proofs.Document.Checks
import VisualQuery.Proofs.Canvas.Removal
import VisualQuery.Proofs.Canvas.Redrawing
import VisualQuery.Proofs.Join.Commuting
import VisualQuery.Proofs.Statement.Totals
import VisualQuery.Proofs.Statement.Source
import VisualQuery.Proofs.Join.Coverage
import VisualQuery.Proofs.Join.Grouping
