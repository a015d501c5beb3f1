import ClassDiagram.Proofs.Additions
import ClassDiagram.Proofs.Atomicity
import ClassDiagram.Proofs.ClassOrder
import ClassDiagram.Proofs.Collections
import ClassDiagram.Proofs.CreationOrder
import ClassDiagram.Proofs.Cycles
import ClassDiagram.Proofs.ErrorLog
import ClassDiagram.Proofs.FarEnds
import ClassDiagram.Proofs.Inherited
import ClassDiagram.Proofs.Lookup
import ClassDiagram.Proofs.NameClashes
import ClassDiagram.Proofs.OwnerRelease
import ClassDiagram.Proofs.Participation
import ClassDiagram.Proofs.Ranges
import ClassDiagram.Proofs.Reachable
import ClassDiagram.Proofs.Registry
import ClassDiagram.Proofs.Replacements
import ClassDiagram.Proofs.ReportedCycles
import ClassDiagram.Proofs.Rewiring
import ClassDiagram.Proofs.Visits
import ClassDiagram.Proofs.WellFormed
