import Loadable.CommandLine.Command
import Loadable.Fault.Report
import Loadable.Host.Layout
import Loadable.Main
import Loadable.Proofs.AcrossFlavors
import Loadable.Proofs.Anchored
import Loadable.Proofs.Ascent
import Loadable.Proofs.Canonical
import Loadable.Proofs.Entries
import Loadable.Proofs.Environments
import Loadable.Proofs.FileStack
import Loadable.Proofs.HostSide
import Loadable.Proofs.LastInsert
import Loadable.Proofs.Missing
import Loadable.Proofs.Nesting
import Loadable.Proofs.Preloading
import Loadable.Proofs.Queries
import Loadable.Proofs.Raising
import Loadable.Proofs.Relative
import Loadable.Proofs.Reordering
import Loadable.Proofs.Replacing
import Loadable.Proofs.Requiring
import Loadable.Proofs.ReservedSide
import Loadable.Proofs.Survivors
import Loadable.Proofs.Tree
import Loadable.Session.Run
