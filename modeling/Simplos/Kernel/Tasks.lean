import Simplos.Kernel.Scheduler

/-!
# `simplos.cpp` and `os.cpp`

Set-up of the kernel, creation and end of a task, look-up by pid. A switch of stacks is described
by its effect on the four shared stack-pointer variables (`contextSwtich`); `Simplos.Switch`
derives that effect from the instructions.
-/

namespace Simplos
set_option autoImplicit false

/-! ## Set-up -/

def initTaskList (b : Build) (queue : TaskQueue) : Exec TaskQueue :=
  (List.finRange tasksMax).foldlM (fun queue i => do
    let high ← taskSpRangeHigh b (slotIndex i)
    return queue.modifyTask i fun t =>
      { t with taskMemoryBlock := slotIndex i, timeCounter := 0, taskSpAdr := high, status := .empty }) queue

def initSchedule (b : Build) (kernel : Kernel) : Exec Kernel := do
  let queue ← initTaskList b kernel.schedule.queue
  return { kernel with
    schedule := { kernel.schedule with osTaskSp := osStackStart, queue := queue, activeTaskBlock := 0 }
    csTimeCounter := 0 }

def initKernel (b : Build) (kernel : Kernel) : Exec Kernel :=
  (List.finRange tasksMax).foldlM (fun kernel i => do
    let high ← taskSpRangeHigh b (slotIndex i)
    let low ← taskSpRangeLow b (slotIndex i)
    let kernel := kernel.modifyTask i fun t => { t with name := some "" }
    return { kernel with taskRamRanges := Function.update kernel.taskRamRanges i { low := low, high := high } })
    (invalidateScheduledQueue kernel)

def verifyThatKernelIsUninitilized (b : Build) (kernel : Kernel) : Exec Unit :=
  fatalIf b (kernel.pidCnt != 0) "Attempted to re-run startup process. Memory wrap-arround?"

/-- `configure_heap_location`, with the stack pointer of `main` as an argument. -/
def configureHeapLocation (b : Build) (sp : Word) (marginToMain : Byte) (kernel : Kernel) : Exec Kernel := do
  let kernel := { kernel with heapStart := sp - marginToMain.setWidth 16 }
  assert b (decide (kernel.heapStart > taskRamStart)) "init section has overflowed heap memory"
  return kernel

/-! ## Creating, ending and finding tasks -/

/-- The slot `add_to_task_list` takes: the first one that is empty. -/
def firstEmpty (tasks : TaskTable) : Option (Fin tasksMax) :=
  (List.finRange tasksMax).find? fun i => decide ((tasks i).status = .empty)

def addToTaskList (b : Build) (priority : Byte) (queue : TaskQueue) : Exec (Byte × TaskQueue) :=
  match firstEmpty queue.tasks with
  | some i => do
    let high ← taskSpRangeHigh b (queue.tasks i).taskMemoryBlock
    return (slotIndex i, queue.modifyTask i fun t =>
      { t with priority := priority, status := .ready, taskSpAdr := high, pid := 0xFFFF })
  | none => do
    fatalError b "Can't create new task! Queue if full!"
    return (0, queue)

def createSimplosTask (b : Build) (name : ProgmemString) (priority : Byte) (kernel : Kernel) :
    Exec (Byte × Kernel) := do
  let (index, queue) ← addToTaskList b priority kernel.schedule.queue
  let slot ← derefTask index
  let kernel := (kernel.withQueue queue).modifyTask slot fun t =>
    { t with status := .running, pid := kernel.pidCnt, name := name }
  return (index, { kernel with pidCnt := kernel.pidCnt + 1 })

def getTask (pid : Word) (kernel : Kernel) : Option (Fin tasksMax) :=
  (List.finRange tasksMax).find? fun i => decide ((kernel.tasks i).pid = pid)

def taskStatus (pid : Word) (kernel : Kernel) : TaskStatus :=
  match getTask pid kernel with
  | some slot => (kernel.tasks slot).status
  | none => .empty

/-- `spawn_task` up to the point where the new task runs its function; `sp` is the stack pointer
the parent's `SAVE_CONTEXT` leaves. The result is the pid of the new task. -/
def spawnTask (b : Build) (name : ProgmemString) (priority : Byte) (sp : Word) (os : Os) : Exec (Word × Os) := do
  let (newTaskIndex, kernel) ← createSimplosTask b name priority os.kernel
  let newTask ← derefTask newTaskIndex
  let kernel := kernel.modifyTask newTask fun t => { t with status := .running }
  let newTaskPid := (kernel.tasks newTask).pid
  let oldTask ← derefTask (indexOfCurrentTask kernel)
  let kernel := kernel.modifyTask oldTask fun t => { t with status := .ready }
  let kernel := kernel.withActiveTaskBlock newTaskIndex
  -- SAVE_CONTEXT stores the stack pointer in task_sp
  let kernel := kernel.modifyTask oldTask fun t => { t with taskSpAdr := sp }
  let current ← derefTask (indexOfCurrentTask kernel)
  let taskSp := (kernel.tasks current).taskSpAdr
  return (newTaskPid, { os with kernel := invalidateScheduledQueue kernel, taskSp := taskSp })

/-- `kill_current_task` up to its call of `k_yield`. -/
def killCurrentTask (b : Build) (kernel : Kernel) : Exec Kernel := do
  let currTaskIndex := indexOfCurrentTask kernel
  let slot ← derefTask currTaskIndex
  let high ← taskSpRangeHigh b currTaskIndex
  let kernel := kernel.modifyTask slot fun t => { t with status := .empty, taskSpAdr := high, name := some "" }
  return invalidateScheduledQueue
    { kernel with endedTaskTimeCounter := kernel.endedTaskTimeCounter + (kernel.tasks slot).timeCounter }

def setPriority (priority : Byte) (kernel : Kernel) : Exec Kernel := do
  let current ← derefTask (indexOfCurrentTask kernel)
  return kernel.modifyTask current fun t => { t with priority := priority }

/-! ## Switching stacks -/

/-- `CONTEXT_SWTICH` entered with a context whose saved stack pointer is `sp`. The stack pointer it
resumes is left in `task_sp`. -/
def Os.contextSwtich (os : Os) (sp : Word) : Os :=
  { os with
    prevTaskSp := sp
    taskSp := if os.nextTaskSp = 0 then os.schedulerTaskSp else os.nextTaskSp
    nextTaskSp := 0 }

end Simplos
