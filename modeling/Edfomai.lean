import Edfomai.Lib.ShiftDiv
import Edfomai.Lib.Table
import Edfomai.Lib.Transition
import Edfomai.Lib.Links
import Edfomai.Lib.Reads
import Edfomai.Prio
import Edfomai.Data
import Edfomai.Driver
import Edfomai.Recalc
import Edfomai.Scale
import Edfomai.Serial
import Edfomai.Invariant
import Edfomai.Locality
import Edfomai.Stability
import Edfomai.Lib.Dispatch
import Edfomai.EdfOrder
import Edfomai.MissLatch
import Edfomai.Lib.Outbox
import Edfomai.NoticeQueue
import Edfomai.FalseMiss
import Edfomai.Lib.CString
import Edfomai.Lib.Buffer
import Edfomai.Notice
import Edfomai.Message
import Edfomai.Arming
import Edfomai.Write
import Edfomai.Acceptance
import Edfomai.Lib.Ledger
import Edfomai.Requests
import Edfomai.Isolation
import Edfomai.Outcome
import Edfomai.Memory
import Edfomai.LifeCycle
import Edfomai.Balance
import Edfomai.Client
import Edfomai.Period
import Edfomai.Start
import Edfomai.Device
import Edfomai.Delivery
import Edfomai.Lib.Cursor
import Edfomai.Steps
import Edfomai.System
import Edfomai.Atomic
import Edfomai.Linear
import Edfomai.Interleaved
import Edfomai.Rounds
import Edfomai.Sessions
import Edfomai.Guarantee
import Edfomai.Iteration
import Edfomai.Lifetime
import Edfomai.Wakeup
import Edfomai.Preemption
import Edfomai.Uthash
import Edfomai.Buckets
import Edfomai.Expand
import Edfomai.Growth
import Edfomai.Elements
import Edfomai.UthashRuns
import Edfomai.Jenkins
import Edfomai.Heap
import Edfomai.HeapRefines
import Edfomai.HeapRuns
import Edfomai.Interrupts
import Edfomai.HeapSerial
import Edfomai.TaskInfo
import Edfomai.ModuleLife
