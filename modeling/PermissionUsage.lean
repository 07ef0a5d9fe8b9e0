import PermissionUsage.App
import PermissionUsage.Change.Board
import PermissionUsage.Codec.Document
import PermissionUsage.History.Disk
import PermissionUsage.Proofs.Live.Process
import PermissionUsage.Proofs.Live.Wiring
import PermissionUsage.Proofs.Live.World
import PermissionUsage.Proofs.Live.Freshness
import PermissionUsage.Proofs.Access.Ends
import PermissionUsage.Proofs.Access.Clusters
import PermissionUsage.Proofs.Episode.Summary
import PermissionUsage.Proofs.Access.Labels
import PermissionUsage.Proofs.Episode.Timeline
import PermissionUsage.Proofs.Episode.Separation
import PermissionUsage.Proofs.History.Listing
import PermissionUsage.Proofs.History.Ledger
import PermissionUsage.Proofs.History.Failures
import PermissionUsage.Proofs.Access.Merging
import PermissionUsage.Proofs.Access.Batches
import PermissionUsage.Proofs.Episode.Order
import PermissionUsage.Proofs.Platform.Reading
import PermissionUsage.Proofs.Platform.ArrivalOrder
import PermissionUsage.Proofs.LastUse.Shown
import PermissionUsage.Proofs.Platform.SaneTimes
import PermissionUsage.Proofs.LastUse.Counted
import PermissionUsage.Proofs.History.Timelines
import PermissionUsage.Proofs.Live.Journal
import PermissionUsage.Proofs.Live.Serialized
import PermissionUsage.Proofs.Episode.Coverage
import PermissionUsage.Proofs.Json.Literals
import PermissionUsage.Proofs.Json.RoundTrip
import PermissionUsage.Proofs.Codec.Documents
import PermissionUsage.Proofs.Codec.Lawful
import PermissionUsage.Proofs.Settings.InStep
import PermissionUsage.Proofs.Live.Lifetime
import PermissionUsage.Proofs.Live.Ignored
import PermissionUsage.Proofs.Platform.Isolation
import PermissionUsage.Proofs.History.WholeMinutes
import PermissionUsage.Proofs.History.Pruning
import PermissionUsage.Proofs.Change.Reentrancy
import PermissionUsage.Proofs.Access.Greedy
import PermissionUsage.Proofs.Access.Components
import PermissionUsage.Proofs.Access.Arrivals
import PermissionUsage.Proofs.Access.LateArrivals
import PermissionUsage.Proofs.Access.Moved
import PermissionUsage.Proofs.Access.SameMinute
import PermissionUsage.Proofs.Episode.Moved
import PermissionUsage.Proofs.Access.Loading
import PermissionUsage.Proofs.Episode.Rows
import PermissionUsage.Proofs.LastUse.Agreement
import PermissionUsage.Proofs.History.Copy
import PermissionUsage.Proofs.Package.Sensitivity
import PermissionUsage.Proofs.Settings.Incomplete
