import Simplos.Kernel.Tasks

/-!
# The running system

`boot` is `main` followed by the first `spawn` of `run_idle_fn`, which starts the scheduler; it ends
when the scheduler has switched to its first task. From then on user tasks act: each action is
atomic and, where it gives up the CPU, is followed by one round of the scheduler. What the code
cannot determine (the stack pointer at a switch, the contents of data memory the round looks at)
comes with the action.
-/

namespace Simplos
set_option autoImplicit false

/-- What surrounds one round of the scheduler: the stack pointer saved by the switch to it, data
memory as the round reads it, the stack pointer saved by the scheduler's own switch. -/
structure Switch where
  sp : Word
  mem : DataMemory
  schedulerSp : Word

/-- What a user task can do to the kernel. -/
inductive Action where
  /-- `spawn`; the saved stack pointer of the parent is `sp`. -/
  | spawn (name : ProgmemString) (priority : Byte) (sp : Word)
  /-- `set_priority`. -/
  | setPriority (priority : Byte)
  /-- `yield`, or preemption by `TIMER1_COMPA`. -/
  | yield (sw : Switch)
  /-- The end of the task: `kill_current_task`. -/
  | kill (sw : Switch)

/-- A switch away from a task. With no task scheduled it resumes the scheduler, which selects a
task and switches to it. -/
def Os.switchAway (b : Build) (sw : Switch) (os : Os) : Exec Os :=
  if os.nextTaskSp = 0 then do
    let os ← schedulerRound b sw.mem (os.contextSwtich sw.sp)
    return os.contextSwtich sw.schedulerSp
  else return os.contextSwtich sw.sp

def Os.step (b : Build) (os : Os) : Action → Exec Os
  | .spawn name priority sp => do return (← spawnTask b name priority sp os).2
  | .setPriority priority => do return { os with kernel := ← setPriority priority os.kernel }
  | .yield sw => os.switchAway b sw
  | .kill sw => do
    let kernel ← killCurrentTask b os.kernel
    { os with kernel := kernel }.switchAway b sw

/-- `main` up to the call of `run_idle_fn`, with the stack pointer of `main` as an argument. -/
def bootMain (b : Build) (sp : Word) : Exec Os := do
  let kernel : Kernel := {}
  verifyThatKernelIsUninitilized b kernel
  let kernel ← initKernel b kernel
  let kernel ← initSchedule b kernel
  let (index, kernel) ← createSimplosTask b (some "idle task") 0 kernel
  let queue := kernel.schedule.queue
  let kernel := kernel.withQueue
    { queue with taskIndexQueue := Function.update queue.taskIndexQueue 0 index, queuePosition := 0 }
  let kernel ← configureHeapLocation b sp 10 kernel
  let idle ← derefTask index
  return { kernel := kernel, taskSp := (kernel.tasks idle).taskSpAdr }

/-- `start_scheduler` up to its first pass of the loop. `sp` is the stack pointer its `SAVE_CONTEXT`
leaves. -/
def enterScheduler (sp : Word) (os : Os) : Exec Os := do
  let current ← derefTask (indexOfCurrentTask os.kernel)
  let kernel := os.kernel.modifyTask current fun t => { t with status := .scheduler }
  return { os with kernel := kernel, taskSp := sp, schedulerTaskSp := sp }

/-- `start_scheduler` up to its first switch to a task. -/
def startScheduler (b : Build) (sw : Switch) (os : Os) : Exec Os := do
  let os ← enterScheduler sw.sp os
  let os ← schedulerRound b sw.mem os
  return os.contextSwtich sw.schedulerSp

/-- `main`, then `run_idle_fn` up to the scheduler's first switch. -/
def boot (b : Build) (mainSp idleSp : Word) (sw : Switch) : Exec Os := do
  let os ← bootMain b mainSp
  let (_, os) ← spawnTask b (some "OS scheduler") 0 idleSp os
  startScheduler b sw os

/-- The states in which a user task executes after a boot on the hardware. -/
def Reachable (os : Os) : Prop :=
  ∃ mainSp idleSp sw start actions, boot .atmega2560 mainSp idleSp sw = .ok start ∧
    Lib.run (Os.step .atmega2560) start actions = .ok os

/-- The states in which the scheduler starts a round: the first one in `start_scheduler`, then one
after every switch away from a task. -/
inductive RoundStart : Os → Prop where
  | first {mainSp idleSp sp pid : Word} {main spawned os : Os} :
      bootMain .atmega2560 mainSp = .ok main →
      spawnTask .atmega2560 (some "OS scheduler") 0 idleSp main = .ok (pid, spawned) →
      enterScheduler sp spawned = .ok os → RoundStart os
  | yield {os : Os} (sp : Word) : Reachable os → RoundStart (os.contextSwtich sp)
  | kill {os : Os} {kernel : Kernel} (sp : Word) : Reachable os →
      killCurrentTask .atmega2560 os.kernel = .ok kernel →
      RoundStart ({ os with kernel := kernel }.contextSwtich sp)

end Simplos
