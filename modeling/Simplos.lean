import Simplos.Lib.Runs
import Simplos.Lib.Pool
import Simplos.Lib.Loops
import Simplos.Lib.CStrings
import Simplos.Lib.ForkJoin
import Simplos.Lib.Ledger
import Simplos.Kernel.Types
import Simplos.Kernel.Memory
import Simplos.Kernel.Scheduler
import Simplos.Kernel.Tasks
import Simplos.Kernel.System
import Simplos.Kernel.Prioritize
import Simplos.Kernel.Spec
import Simplos.Kernel.Invariant
import Simplos.Kernel.Safety
import Simplos.Kernel.StackPointers
import Simplos.Kernel.Cycle
import Simplos.Kernel.Pids
import Simplos.Kernel.StackCheck
import Simplos.Kernel.QueueBounds
import Simplos.Kernel.Creation
import Simplos.Kernel.Accounting
import Simplos.Kernel.Refinement
import Simplos.Kernel.Halting
import Simplos.Kernel.Schedules
import Simplos.Kernel.Waiting
import Simplos.Kernel.TaskEnd
import Simplos.Kernel.Programs
import Simplos.Kernel.Interleavings
import Simplos.Kernel.Resources
import Simplos.Avr.Cpu
import Simplos.Avr.Instr
import Simplos.Avr.Stores
import Simplos.Switch.Macros
import Simplos.Switch.Exec
import Simplos.Switch.Selection
import Simplos.Switch.ReturnPoint
import Simplos.Switch.Preemption
import Simplos.Switch.Frame
import Simplos.Switch.Checks
import Simplos.Switch.System
import Simplos.Switch.Rounds
import Simplos.Switch.Located
import Simplos.Switch.Start
import Simplos.Switch.Progress
import Simplos.Switch.SchedulerStack
import Simplos.Switch.Masking
import Simplos.Switch.Boot
import Simplos.Switch.Handover
import Simplos.Switch.Stacks
import Simplos.Switch.Threads
import Simplos.Switch.ThreadSteps
import Simplos.Switch.Completion
import Simplos.Switch.OwnCpus
import Simplos.Hal.Log
import Simplos.Hal.LogSearch
import Simplos.Hal.LogReads
import Simplos.Hal.Serial
import Simplos.UserTasks
