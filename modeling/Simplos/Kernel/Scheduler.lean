import Simplos.Lib.Loops
import Simplos.Kernel.Memory

/-!
# `scheduler.cpp`

The four words of RAM through which the context switch and the scheduler hand stack pointers to
each other (`hal.hpp`) are fields of `Os` next to the kernel. One pass of the loop in
`start_scheduler`, up to its call of `k_yield`, is `schedulerRound`.
-/

namespace Simplos
set_option autoImplicit false

/-- The kernel and the stack-pointer variables shared with the context switch. -/
structure Os where
  kernel : Kernel := {}
  taskSp : Word := 0
  prevTaskSp : Word := 0
  nextTaskSp : Word := 0
  schedulerTaskSp : Word := 0

/-- `UINT8_MAX`. -/
def uint8Max : Nat := 255

/-- `out_priority_list[num_sored] = i; num_sored++;` -/
def storePriority (acc : Byte × IndexQueue) (i : Fin tasksMax) : Exec (Byte × IndexQueue) := do
  let slot ← queueSlot acc.1
  return (acc.1 + 1, Function.update acc.2 slot (slotIndex i))

/-- The body of the inner loop of `prioritize_tasks`. -/
def prioritizeStep (tasks : TaskTable) (priority : Byte) (acc : Byte × IndexQueue) (i : Fin tasksMax) :
    Exec (Byte × IndexQueue) :=
  let taskIsActive := decide ((tasks i).status = .ready)
  if taskIsActive && decide ((tasks i).priority = priority) then storePriority acc i else .ok acc

/-- `prioritize_tasks`: the number of prioritized tasks and the list written. The outer loop runs
while `priority < (uint8_t)UINT8_MAX`. -/
def prioritizeTasks (tasks : TaskTable) (outPriorityList : IndexQueue) : Exec (Byte × IndexQueue) :=
  (List.range uint8Max).foldlM
    (fun acc priority => (List.finRange tasksMax).foldlM (prioritizeStep tasks (BitVec.ofNat 8 priority)) acc)
    (0, outPriorityList)

def reschedule (b : Build) (kernel : Kernel) : Exec Kernel := do
  let queue := kernel.schedule.queue
  let (numActiveTasks, taskIndexQueue) ← prioritizeTasks queue.tasks queue.taskIndexQueue
  fatalIf b (numActiveTasks == 0) "Error, no tasks avalable to schedule!"
  return kernel.withQueue
    { queue with taskIndexQueue := taskIndexQueue, queuePosition := numActiveTasks - 1 }

/-- The queue entry to consume next: `select_next_task` reschedules at position 0 and steps down
otherwise. -/
def moveQueuePosition (b : Build) (kernel : Kernel) : Exec Kernel :=
  let queue := kernel.schedule.queue
  if queue.queuePosition = 0 then reschedule b kernel
  else .ok (kernel.withQueue { queue with queuePosition := queue.queuePosition - 1 })

/-- `select_next_task`: the index it returns, and `next_task_sp` set to that task's saved SP. -/
def selectNextTask (b : Build) (os : Os) : Exec (Byte × Os) := do
  let kernel ← moveQueuePosition b os.kernel
  let slot ← queueSlot kernel.schedule.queue.queuePosition
  let selectedTaskIndex := kernel.schedule.queue.taskIndexQueue slot
  let selected ← derefTask selectedTaskIndex
  return (selectedTaskIndex, { os with kernel := kernel, nextTaskSp := (kernel.tasks selected).taskSpAdr })

/-- `task_PC` as `assert_stack_pointer_points_to_valid_return_address` reads it: three bytes copied
into a little-endian `uint32_t`, from 32 bytes above the saved stack pointer. -/
def savedTaskPc (mem : DataMemory) (adrOfSavedTask : Word) : BitVec 32 :=
  let adrOfStackSavedPc := adrOfSavedTask + (numContextSwitchOverheadBytes - 3 - 1)
  (0 : Byte) ++ mem (adrOfStackSavedPc + 2) ++ mem (adrOfStackSavedPc + 1) ++ mem adrOfStackSavedPc

def assertStackPointerPointsToValidReturnAddress (b : Build) (mem : DataMemory) (adrOfSavedTask : Word) :
    Exec Unit := do
  let taskPc := savedTaskPc mem adrOfSavedTask
  assert b (taskPc &&& 0x00FE0000 == 0) "Unexpected PC value found on task stack"
  assert b (taskPc != 0) "MALFORMED program couter for stack"

/-- The assignments `handle_previous_task` makes to the task that just stopped running. -/
def savePrevious (prev : Fin tasksMax) (os : Os) : Os :=
  match (os.kernel.tasks prev).status with
  | .scheduler =>
    { os with kernel := os.kernel.modifyTask prev fun t =>
        { t with taskSpAdr := os.schedulerTaskSp, status := .scheduler } }
  | .running =>
    { os with kernel := os.kernel.modifyTask prev fun t =>
        { t with taskSpAdr := os.prevTaskSp, status := .ready } }
  | _ => os

def handlePreviousTask (b : Build) (mem : DataMemory) (prev : Fin tasksMax) (os : Os) : Exec Os :=
  -- validation of the task's SP is not required when the task is empty
  if (os.kernel.tasks prev).status = .empty then .ok os
  else do
    let os := savePrevious prev os
    assertTaskPointerIntegrity b mem (os.kernel.tasks prev) os.kernel
    assertStackPointerPointsToValidReturnAddress b mem (os.kernel.tasks prev).taskSpAdr
    return os

def prepareNextTask (b : Build) (mem : DataMemory) (next : Fin tasksMax) (os : Os) : Exec Os := do
  assertTaskPointerIntegrity b mem (os.kernel.tasks next) os.kernel
  match (os.kernel.tasks next).status with
  | .empty =>
    fatalError b "Error, can not select an empty task!\n"
    return os
  | .scheduler =>
    fatalError b "ERROR, Can not select scheduler task selected as next task!\n"
    return os
  | _ => return { os with kernel := os.kernel.modifyTask next fun t => { t with status := .running } }

def invalidateScheduledQueue (kernel : Kernel) : Kernel :=
  kernel.withQueue { kernel.schedule.queue with queuePosition := 0 }

def indexOfCurrentTask (kernel : Kernel) : Byte := kernel.schedule.activeTaskBlock

/-- `kernel.schedule.active_task_block = i`. -/
def Kernel.withActiveTaskBlock (kernel : Kernel) (i : Byte) : Kernel :=
  { kernel with schedule := { kernel.schedule with activeTaskBlock := i } }

@[simp] theorem withActiveTaskBlock_activeTaskBlock (kernel : Kernel) (i : Byte) :
    (kernel.withActiveTaskBlock i).schedule.activeTaskBlock = i := rfl

/-- One pass of the loop in `start_scheduler`, up to the call of `k_yield`. -/
def schedulerRound (b : Build) (mem : DataMemory) (os : Os) : Exec Os := do
  let prev ← derefTask (indexOfCurrentTask os.kernel)
  let os ← handlePreviousTask b mem prev os
  let (newTaskIndex, os) ← selectNextTask b os
  let os := { os with kernel := os.kernel.withActiveTaskBlock newTaskIndex }
  let next ← derefTask (indexOfCurrentTask os.kernel)
  prepareNextTask b mem next os

end Simplos
