import CanonicalNames.CommandLine.Directory
import CanonicalNames.Main
import CanonicalNames.Proofs.Documents
import CanonicalNames.Proofs.Grouping.Precedence
import CanonicalNames.Proofs.Index.Candidates
import CanonicalNames.Proofs.Index.Confinement
import CanonicalNames.Proofs.Index.Departure
import CanonicalNames.Proofs.Index.Justification
import CanonicalNames.Proofs.Index.Lookup
import CanonicalNames.Proofs.Index.Outbox
import CanonicalNames.Proofs.Index.Placing
import CanonicalNames.Proofs.Index.Precedence
import CanonicalNames.Proofs.Index.Removal
import CanonicalNames.Proofs.Index.Representation
import CanonicalNames.Proofs.Index.Undo
import CanonicalNames.Proofs.Report.Accounting
import CanonicalNames.Proofs.TypeUse
import CanonicalNames.Proofs.Workspace.Independence
import CanonicalNames.Proofs.Workspace.Opening
import CanonicalNames.Proofs.Workspace.Publication
import CanonicalNames.Proofs.Workspace.Reporting
import CanonicalNames.Proofs.Workspace.Steady
import CanonicalNames.Proofs.Index.Preorder
