import NameTree.FileSystem.Listeners
import NameTree.FileSystem.Run
import NameTree.Host.Session
import NameTree.Operation.Workbench
import NameTree.Proofs.Addressable
import NameTree.Proofs.Admitted
import NameTree.Proofs.Bracket
import NameTree.Proofs.Capacities
import NameTree.Proofs.ChecksFirst
import NameTree.Proofs.CleanReport
import NameTree.Proofs.Committed
import NameTree.Proofs.Commuting
import NameTree.Proofs.Containers
import NameTree.Proofs.Creation
import NameTree.Proofs.EventLog
import NameTree.Proofs.Grammar
import NameTree.Proofs.InternalFaults
import NameTree.Proofs.Issued
import NameTree.Proofs.Listable
import NameTree.Proofs.Lookups
import NameTree.Proofs.Malformed
import NameTree.Proofs.Mirror
import NameTree.Proofs.NestedRuns
import NameTree.Proofs.Removal
import NameTree.Proofs.Renaming
import NameTree.Proofs.Report
import NameTree.Proofs.Rollback
import NameTree.Proofs.Routes
import NameTree.Proofs.Serial
import NameTree.Proofs.Strangers
import NameTree.Proofs.Walk
