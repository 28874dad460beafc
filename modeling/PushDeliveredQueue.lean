import PushDeliveredQueue.Runs
import PushDeliveredQueue.Models
import PushDeliveredQueue.Queue
import PushDeliveredQueue.Events
import PushDeliveredQueue.Dispatch
import PushDeliveredQueue.DlqReplay
import PushDeliveredQueue.System
import PushDeliveredQueue.Steps
import PushDeliveredQueue.Lifecycle
import PushDeliveredQueue.Buffer
import PushDeliveredQueue.Cursor
import PushDeliveredQueue.Loop
import PushDeliveredQueue.Order
import PushDeliveredQueue.Coverage
import PushDeliveredQueue.Fifo
import PushDeliveredQueue.Refinement
import PushDeliveredQueue.ReplayFrom
import PushDeliveredQueue.DeadLetters
import PushDeliveredQueue.Overlap
import PushDeliveredQueue.Independence
import PushDeliveredQueue.Payloads
import PushDeliveredQueue.Delivery
import PushDeliveredQueue.Snapshot
import PushDeliveredQueue.Acknowledged
import PushDeliveredQueue.Departure
import PushDeliveredQueue.Blocked
import PushDeliveredQueue.Duplicates
import PushDeliveredQueue.ReplayRace
import PushDeliveredQueue.Disposal
import PushDeliveredQueue.Calls
import PushDeliveredQueue.Expiry
import PushDeliveredQueue.Pruning
import PushDeliveredQueue.ReplayAll
import PushDeliveredQueue.Fields
import PushDeliveredQueue.Launcher
import PushDeliveredQueue.CatchUp
import PushDeliveredQueue.Requests
import PushDeliveredQueue.OffsetLog
import PushDeliveredQueue.Positions
import PushDeliveredQueue.Shutdown
import PushDeliveredQueue.Startup
import PushDeliveredQueue.Monitor
import PushDeliveredQueue.Redelivery
import PushDeliveredQueue.Draining
import PushDeliveredQueue.Lifetime
