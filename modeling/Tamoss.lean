import Tamoss.Migrations.FlowColumns
import Tamoss.Player.ConsoleRedaction
import Tamoss.Store.Sequential
import Tamoss.Store.ObjectConstancy
import Tamoss.Store.OverlapChecks
import Tamoss.Store.ListingOrders
import Tamoss.Store.Integrity
import Tamoss.Store.ObjectRows
import Tamoss.Operator.AdvancedPatches
import Tamoss.Jobs.IngestCancelled
import Tamoss.Jobs.IngestFinal
import Tamoss.Jobs.BackendDeregistered
import Tamoss.Webhooks.Egress
import Tamoss.Webhooks.Writes
import Tamoss.Store.RequestedRanges
import Tamoss.Player.Timeranges
import Tamoss.Store.WorkerClaims
