import ListSync.Edit.Splice
import ListSync.Host
import ListSync.Json.Writer
import ListSync.Producer.Checked
import ListSync.Producer.Http
import ListSync.Producer.Settings
import ListSync.Session.Checked
import ListSync.Proofs.Session.InFlight
import ListSync.Proofs.Session.Refusal
import ListSync.Proofs.Session.Correlation
import ListSync.Proofs.Session.Versions
import ListSync.Proofs.Replay
import ListSync.Proofs.Batches
import ListSync.Proofs.Session.Changes
import ListSync.Proofs.Session.Disjoint
import ListSync.Proofs.Session.Pages
import ListSync.Proofs.Link
import ListSync.Proofs.Discovery
import ListSync.Proofs.Fate
import ListSync.Proofs.Filling
import ListSync.Proofs.Session.Waiting
import ListSync.Proofs.Session.Isolation
import ListSync.Proofs.Session.Placing
import ListSync.Proofs.Session.Merging
import ListSync.Proofs.Session.Wire
import ListSync.Proofs.PagedLink
import ListSync.Proofs.Producer.Delivery
import ListSync.Proofs.Producer.Confinement
import ListSync.Proofs.Producer.Windowing
import ListSync.Proofs.Session.Crossing
import ListSync.Proofs.Session.Planning
import ListSync.Proofs.Session.Checked
import ListSync.Proofs.Producer.Checked
import ListSync.Proofs.Session.Prefetching
import ListSync.Proofs.Producer.Slicing
import ListSync.Proofs.Handles
import ListSync.Proofs.Session.Handles
import ListSync.Proofs.Producer.ClientMessage
