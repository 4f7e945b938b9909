import TemporalLight.System
import TemporalLight.Transitions
import TemporalLight.Transactions
import TemporalLight.Tables
import TemporalLight.Calls
import TemporalLight.Tasks
import TemporalLight.Origins
import TemporalLight.Leases
import TemporalLight.Terminal
import TemporalLight.Ownership
import TemporalLight.Signals
import TemporalLight.Wakeup
import TemporalLight.Stability
import TemporalLight.Children
import TemporalLight.Outcome
import TemporalLight.Blocks
import TemporalLight.Position
import TemporalLight.Awaits
import TemporalLight.Deadlocks
import TemporalLight.Library.Dict
import TemporalLight.Serialization
import TemporalLight.RoundTrip
import TemporalLight.Unions
import TemporalLight.Divergence
import TemporalLight.ForgedCompletions
import TemporalLight.Payloads
import TemporalLight.Sse
import TemporalLight.Client
import TemporalLight.Steps
import TemporalLight.Suspensions
import TemporalLight.Settled
import TemporalLight.Retries
import TemporalLight.Backoff
import TemporalLight.ActivityPool
import TemporalLight.Canonical
import TemporalLight.SignalWaits
import TemporalLight.Dashboard
import TemporalLight.Streams
import TemporalLight.StreamOrder
import TemporalLight.Notifications
import TemporalLight.StreamDelivery
import TemporalLight.InProcess
import TemporalLight.Exclusion
import TemporalLight.Sleeps
import TemporalLight.PutOff
import TemporalLight.Replays
import TemporalLight.Programs
import TemporalLight.Durability
import TemporalLight.Starts
import TemporalLight.Sequential
import TemporalLight.Spawns
import TemporalLight.OneByOne
import TemporalLight.LogShape
import TemporalLight.Schedules
import TemporalLight.Stalls
import TemporalLight.Recovery
import TemporalLight.Coherence
import TemporalLight.Acknowledgements
import TemporalLight.Heartbeats
import TemporalLight.Scheduler
