import Simplos.Kernel.Prioritize
import Simplos.Kernel.System

/-!
# What each operation of the kernel does when it returns

One inversion lemma per operation on the hardware build: the guards it passed and the state it
leaves. The invariants are derived from these lemmas; nothing below unfolds the operations again.
-/

namespace Simplos
set_option autoImplicit false
open Lib (bind_eq_ok ok_bind)

theorem pure_eq_ok {α : Type} {a a' : α} : (pure a : Exec α) = .ok a' ↔ a = a' := by
  simp [pure, Except.pure]

theorem eq_slotIndex_of_deref {i : Byte} {slot : Fin tasksMax} (h : derefTask i = .ok slot) : i = slotIndex slot := by
  apply BitVec.eq_of_toNat_eq
  rw [derefTask_ok.mp h, slotIndex_toNat]

/-! ## Set-up -/

theorem foldl_modifyTask (f : Fin tasksMax → SimplosTask → SimplosTask) (l : List (Fin tasksMax)) (q : TaskQueue) :
    l.foldl (fun q i => q.modifyTask i (f i)) q =
      { q with tasks := l.foldl (fun t i => Function.update t i (f i (t i))) q.tasks } := by
  induction l generalizing q with
  | nil => rfl
  | cons i l ih => exact ih (q.modifyTask i (f i))

theorem initTaskList_eq (b : Build) (q : TaskQueue) :
    initTaskList b q = .ok { q with tasks := fun i => { q.tasks i with
      taskMemoryBlock := slotIndex i, timeCounter := 0, taskSpAdr := blockHigh i, status := .empty } } := by
  simp only [initTaskList, taskSpRangeHigh_slot, ok_bind, List.foldlM_pure]
  have fill := Lib.foldl_update_finRange (fun i (t : SimplosTask) => { t with
    taskMemoryBlock := slotIndex i, timeCounter := 0, taskSpAdr := blockHigh i, status := .empty }) q.tasks
  rw [foldl_modifyTask fun i t => { t with
    taskMemoryBlock := slotIndex i, timeCounter := 0, taskSpAdr := blockHigh i, status := .empty }]
  exact congrArg (fun t => Except.ok { q with tasks := t }) fill

theorem foldl_initKernel (range : Fin tasksMax → MemorySpan) (l : List (Fin tasksMax)) (k : Kernel) :
    l.foldl (fun k i => { k.modifyTask i fun t => { t with name := some "" } with
        taskRamRanges := Function.update k.taskRamRanges i (range i) }) k =
      { k.withQueue { k.schedule.queue with
          tasks := l.foldl (fun t i => Function.update t i { t i with name := some "" }) k.tasks } with
        taskRamRanges := l.foldl (fun r i => Function.update r i (range i)) k.taskRamRanges } := by
  induction l generalizing k with
  | nil => rfl
  | cons i l ih => exact ih _

theorem initKernel_eq (b : Build) (k : Kernel) :
    initKernel b k = .ok { k.withQueue { k.schedule.queue with
        tasks := fun i => { k.tasks i with name := some "" }, queuePosition := 0 } with
      taskRamRanges := fun i => { low := blockLow i, high := blockHigh i } } := by
  simp only [initKernel, taskSpRangeHigh_slot, taskSpRangeLow_slot, ok_bind, List.foldlM_pure]
  have loop := foldl_initKernel (fun i => { low := blockLow i, high := blockHigh i }) (List.finRange tasksMax)
    (invalidateScheduledQueue k)
  have names := Lib.foldl_update_finRange (fun _ (t : SimplosTask) => { t with name := some "" }) k.tasks
  have ranges := Lib.foldl_update_finRange
    (fun i (_ : MemorySpan) => { low := blockLow i, high := blockHigh i }) k.taskRamRanges
  refine congrArg Except.ok (loop.trans ?_)
  exact congrArg₂ (fun t r => { k.withQueue { k.schedule.queue with tasks := t, queuePosition := 0 } with
    taskRamRanges := r }) names ranges

/-- The kernel as `init_kernel` and `init_schedule` leave it at start-up. -/
def initialKernel : Kernel :=
  { schedule :=
      { queue :=
          { tasks := fun i => { name := some "", taskMemoryBlock := slotIndex i, taskSpAdr := blockHigh i } }
        osTaskSp := osStackStart }
    taskRamRanges := fun i => { low := blockLow i, high := blockHigh i } }

theorem initialKernel_eq (b : Build) : (initKernel b {} >>= initSchedule b) = .ok initialKernel := by
  simp only [initKernel_eq, ok_bind, initSchedule, withQueue_queue, initTaskList_eq]
  rfl

theorem firstEmpty_initial : firstEmpty initialKernel.tasks = some 0 := rfl

/-! ## One round of the scheduler -/

/-- The checks the scheduler makes on the saved context of a task. -/
def ContextChecked (mem : DataMemory) (slot : Fin tasksMax) (k : Kernel) : Prop :=
  assertTaskPointerIntegrity .atmega2560 mem (k.tasks slot) k = .ok () ∧
    assertStackPointerPointsToValidReturnAddress .atmega2560 mem (k.tasks slot).taskSpAdr = .ok ()

theorem handlePreviousTask_ok {mem : DataMemory} {prev : Fin tasksMax} {os os' : Os}
    (h : handlePreviousTask .atmega2560 mem prev os = .ok os') :
    os' = savePrevious prev os ∧
      ((os.kernel.tasks prev).status ≠ .empty → ContextChecked mem prev os'.kernel) := by
  unfold handlePreviousTask at h
  split at h
  · rename_i empty
    cases h
    exact ⟨by simp [savePrevious, empty], fun ne => absurd empty ne⟩
  · simp only [bind_eq_ok] at h
    obtain ⟨⟨⟩, integrity, ⟨⟩, valid, last⟩ := h
    obtain rfl := pure_eq_ok.mp last
    exact ⟨rfl, fun _ => ⟨integrity, valid⟩⟩

/-- The queue after one selection: refilled when its position is 0, advanced otherwise. -/
def TaskQueue.advance (q : TaskQueue) : TaskQueue :=
  if q.queuePosition = 0 then
    { q with
      taskIndexQueue := overwrite q.taskIndexQueue 0 (prioritized q.tasks)
      queuePosition := BitVec.ofNat 8 (prioritized q.tasks).length - 1 }
  else { q with queuePosition := q.queuePosition - 1 }

theorem advance_tasks (q : TaskQueue) : q.advance.tasks = q.tasks := by
  unfold TaskQueue.advance
  split <;> rfl

theorem reschedule_ok {k k' : Kernel} (zero : k.schedule.queue.queuePosition = 0)
    (h : reschedule .atmega2560 k = .ok k') :
    prioritized k.tasks ≠ [] ∧ k' = k.withQueue k.schedule.queue.advance := by
  simp only [reschedule, prioritizeTasks_eq, ok_bind, bind_eq_ok, fatalIf_ok] at h
  obtain ⟨⟨⟩, some, last⟩ := h
  refine ⟨fun none => ?_, ?_⟩
  · simp [Kernel.tasks] at none
    simp [none] at some
  · rw [← pure_eq_ok.mp last, TaskQueue.advance, if_pos zero]

theorem moveQueuePosition_ok {k k' : Kernel} (h : moveQueuePosition .atmega2560 k = .ok k') :
    (k.schedule.queue.queuePosition = 0 → prioritized k.tasks ≠ []) ∧ k' = k.withQueue k.schedule.queue.advance := by
  simp only [moveQueuePosition] at h
  split at h
  · rename_i zero
    obtain ⟨some, rfl⟩ := reschedule_ok zero h
    exact ⟨fun _ => some, rfl⟩
  · rename_i position
    cases h
    exact ⟨fun zero => absurd zero position, by rw [TaskQueue.advance, if_neg position]⟩

theorem selectNextTask_ok {os os' : Os} {index : Byte} (h : selectNextTask .atmega2560 os = .ok (index, os')) :
    ∃ (slot : Fin taskQueueLength) (selected : Fin tasksMax),
      index = slotIndex selected ∧
      os.kernel.schedule.queue.advance.queuePosition.toNat = slot ∧
      os.kernel.schedule.queue.advance.taskIndexQueue slot = index ∧
      (os.kernel.schedule.queue.queuePosition = 0 → prioritized os.kernel.tasks ≠ []) ∧
      os' = { os with
        kernel := os.kernel.withQueue os.kernel.schedule.queue.advance
        nextTaskSp := (os.kernel.tasks selected).taskSpAdr } := by
  simp only [selectNextTask, bind_eq_ok] at h
  obtain ⟨k, chosen, slot, inside, selected, deref, last⟩ := h
  obtain ⟨some, rfl⟩ := moveQueuePosition_ok chosen
  obtain ⟨rfl, rfl⟩ := Prod.mk.inj (pure_eq_ok.mp last)
  refine ⟨slot, selected, eq_slotIndex_of_deref deref, queueSlot_ok.mp inside, rfl, some, ?_⟩
  simp only [Kernel.tasks, withQueue_queue, advance_tasks]

theorem prepareNextTask_ok {mem : DataMemory} {next : Fin tasksMax} {os os' : Os}
    (h : prepareNextTask .atmega2560 mem next os = .ok os') :
    assertTaskPointerIntegrity .atmega2560 mem (os.kernel.tasks next) os.kernel = .ok () ∧
      (os.kernel.tasks next).status ≠ .empty ∧ (os.kernel.tasks next).status ≠ .scheduler ∧
      os' = { os with kernel := os.kernel.modifyTask next fun t => { t with status := .running } } := by
  simp only [prepareNextTask, bind_eq_ok] at h
  obtain ⟨⟨⟩, integrity, h⟩ := h
  split at h
  · simp [fatalError] at h
  · simp [fatalError] at h
  · rename_i notEmpty notScheduler
    exact ⟨integrity, notEmpty, notScheduler, (pure_eq_ok.mp h).symm⟩

/-- A completed round in its three parts. -/
theorem schedulerRound_ok {mem : DataMemory} {os os' : Os} (h : schedulerRound .atmega2560 mem os = .ok os') :
    ∃ (prev next : Fin tasksMax) (saved selected : Os),
      os.kernel.schedule.activeTaskBlock = slotIndex prev ∧
      handlePreviousTask .atmega2560 mem prev os = .ok saved ∧
      selectNextTask .atmega2560 saved = .ok (slotIndex next, selected) ∧
      prepareNextTask .atmega2560 mem next
        { selected with kernel := selected.kernel.withActiveTaskBlock (slotIndex next) } = .ok os' := by
  simp only [schedulerRound, bind_eq_ok] at h
  obtain ⟨prev, atPrev, saved, handled, ⟨index, selected⟩, chosen, next, atNext, prepared⟩ := h
  obtain rfl : index = slotIndex next := eq_slotIndex_of_deref atNext
  exact ⟨prev, next, saved, selected, eq_slotIndex_of_deref atPrev, handled, chosen, prepared⟩

/-! ## Creating and ending tasks -/

theorem firstEmpty_some {tasks : TaskTable} {i : Fin tasksMax} (h : firstEmpty tasks = some i) :
    (tasks i).status = .empty := by
  simpa using List.find?_some h

theorem modifyTask_modifyTask (k : Kernel) (slot : Fin tasksMax) (f g : SimplosTask → SimplosTask) :
    (k.modifyTask slot f).modifyTask slot g = k.modifyTask slot fun t => g (f t) := by
  simp [Kernel.modifyTask, Kernel.withQueue, TaskQueue.modifyTask]

theorem createSimplosTask_ok {name : ProgmemString} {priority index : Byte} {k k' : Kernel}
    (h : createSimplosTask .atmega2560 name priority k = .ok (index, k')) :
    ∃ (slot : Fin tasksMax) (high : Word),
      firstEmpty k.tasks = some slot ∧ index = slotIndex slot ∧
      taskSpRangeHigh .atmega2560 (k.tasks slot).taskMemoryBlock = .ok high ∧
      k' = { k.modifyTask slot fun t => { t with
              priority := priority, status := .running, taskSpAdr := high, pid := k.pidCnt, name := name } with
            pidCnt := k.pidCnt + 1 } := by
  simp only [createSimplosTask, bind_eq_ok] at h
  obtain ⟨⟨i, queue⟩, added, slot, deref, last⟩ := h
  unfold addToTaskList at added
  split at added
  · rename_i slot' first
    simp only [bind_eq_ok] at added
    obtain ⟨high, atHigh, added⟩ := added
    obtain ⟨rfl, rfl⟩ := Prod.mk.inj (pure_eq_ok.mp added)
    obtain ⟨rfl, rfl⟩ := Prod.mk.inj (pure_eq_ok.mp last)
    obtain rfl : slot' = slot := slotIndex_inj.mp (eq_slotIndex_of_deref deref)
    refine ⟨slot', high, first, rfl, atHigh, ?_⟩
    have merged := modifyTask_modifyTask k slot'
      (fun t => { t with priority := priority, status := .ready, taskSpAdr := high, pid := 0xFFFF })
      (fun t => { t with status := .running, pid := k.pidCnt, name := name })
    exact congrArg (fun k' : Kernel => { k' with pidCnt := k.pidCnt + 1 }) merged
  · simp [fatalError] at added

/-- The kernel after a spawn: the new slot RUNNING and active, the parent READY with the saved `sp`. -/
def Kernel.spawned (k : Kernel) (name : ProgmemString) (priority : Byte) (sp high : Word) (new old : Fin tasksMax) :
    Kernel :=
  invalidateScheduledQueue { ((k.modifyTask new fun t => { t with
        priority := priority, status := .running, taskSpAdr := high, pid := k.pidCnt, name := name }).modifyTask old
      fun t => { t with status := .ready, taskSpAdr := sp }).withActiveTaskBlock (slotIndex new) with
    pidCnt := k.pidCnt + 1 }

theorem spawnTask_ok {name : ProgmemString} {priority : Byte} {sp pid : Word} {os os' : Os}
    (h : spawnTask .atmega2560 name priority sp os = .ok (pid, os')) :
    ∃ (new old : Fin tasksMax) (high : Word),
      firstEmpty os.kernel.tasks = some new ∧
      os.kernel.schedule.activeTaskBlock = slotIndex old ∧
      taskSpRangeHigh .atmega2560 (os.kernel.tasks new).taskMemoryBlock = .ok high ∧
      pid = os.kernel.pidCnt ∧
      os'.kernel = os.kernel.spawned name priority sp high new old ∧
      os'.prevTaskSp = os.prevTaskSp ∧ os'.nextTaskSp = os.nextTaskSp ∧
      os'.schedulerTaskSp = os.schedulerTaskSp := by
  simp only [spawnTask, bind_eq_ok] at h
  obtain ⟨⟨index, created⟩, make, new, atNew, old, atOld, current, -, last⟩ := h
  obtain rfl : index = slotIndex new := eq_slotIndex_of_deref atNew
  obtain ⟨rfl, rfl⟩ := Prod.mk.inj (pure_eq_ok.mp last)
  obtain ⟨new', high, first, index, atHigh, rfl⟩ := createSimplosTask_ok make
  obtain rfl : new = new' := slotIndex_inj.mp index
  refine ⟨new, old, high, first, eq_slotIndex_of_deref atOld, atHigh, ?_, ?_, rfl, rfl, rfl⟩
  · rw [modifyTask_self]
    exact congrArg SimplosTask.pid (modifyTask_self os.kernel new _)
  · -- the two assignments to each slot are one assignment
    simp only [Kernel.spawned, Kernel.modifyTask, Kernel.withQueue, TaskQueue.modifyTask, Kernel.withActiveTaskBlock,
      invalidateScheduledQueue, Function.update_self, Function.update_idem]

theorem killCurrentTask_ok {k k' : Kernel} (h : killCurrentTask .atmega2560 k = .ok k') :
    ∃ (slot : Fin tasksMax),
      k.schedule.activeTaskBlock = slotIndex slot ∧
      k' = invalidateScheduledQueue { k.modifyTask slot fun t => { t with
            status := .empty, taskSpAdr := blockHigh slot, name := some "" } with
          endedTaskTimeCounter := k.endedTaskTimeCounter + (k.tasks slot).timeCounter } := by
  simp only [killCurrentTask, bind_eq_ok] at h
  obtain ⟨slot, deref, high, atHigh, last⟩ := h
  have active := eq_slotIndex_of_deref deref
  rw [active, taskSpRangeHigh_slot] at atHigh
  obtain rfl := Except.ok.inj atHigh
  refine ⟨slot, active, ?_⟩
  rw [← pure_eq_ok.mp last, modifyTask_self]
  rfl

theorem setPriority_ok {priority : Byte} {k k' : Kernel} (h : setPriority priority k = .ok k') :
    ∃ slot : Fin tasksMax, k.schedule.activeTaskBlock = slotIndex slot ∧
      k' = k.modifyTask slot fun t => { t with priority := priority } := by
  simp only [setPriority, bind_eq_ok] at h
  obtain ⟨slot, deref, last⟩ := h
  exact ⟨slot, eq_slotIndex_of_deref deref, (pure_eq_ok.mp last).symm⟩

/-! ## Booting -/

/-- `main` creates the idle task in slot 0 of the initial kernel. -/
theorem bootMain_ok {sp : Word} {os : Os} (h : bootMain .atmega2560 sp = .ok os) :
    ∃ created, createSimplosTask .atmega2560 (some "idle task") 0 initialKernel = .ok (slotIndex 0, created) ∧
      os.kernel = { created.withQueue { created.schedule.queue with
          taskIndexQueue := Function.update created.schedule.queue.taskIndexQueue 0 (slotIndex 0)
          queuePosition := 0 } with heapStart := sp - 10 } ∧
      os.prevTaskSp = 0 ∧ os.nextTaskSp = 0 ∧ os.schedulerTaskSp = 0 := by
  simp only [bootMain, configureHeapLocation, bind_eq_ok] at h
  obtain ⟨⟨⟩, -, k, atKernel, k', atSchedule, ⟨index, created⟩, make, k'', ⟨⟨⟩, -, placed⟩, idle, -, last⟩ := h
  have initial : k' = initialKernel := by
    have both := initialKernel_eq .atmega2560
    rw [atKernel, ok_bind, atSchedule] at both
    exact Except.ok.inj both
  subst initial
  have atZero : index = slotIndex 0 := by
    obtain ⟨slot, -, first, index, -, -⟩ := createSimplosTask_ok make
    rw [firstEmpty_initial] at first
    rw [index, ← Option.some.inj first]
  subst atZero
  obtain rfl := pure_eq_ok.mp last
  obtain rfl := pure_eq_ok.mp placed
  exact ⟨created, make, rfl, rfl, rfl, rfl⟩

theorem enterScheduler_ok {sp : Word} {os os' : Os} (h : enterScheduler sp os = .ok os') :
    ∃ slot : Fin tasksMax, os.kernel.schedule.activeTaskBlock = slotIndex slot ∧
      os' = { os with
        kernel := os.kernel.modifyTask slot fun t => { t with status := .scheduler }
        taskSp := sp
        schedulerTaskSp := sp } := by
  obtain ⟨slot, deref, last⟩ := bind_eq_ok.mp h
  exact ⟨slot, eq_slotIndex_of_deref deref, (pure_eq_ok.mp last).symm⟩

/-- A boot in its four parts. -/
theorem boot_ok {mainSp idleSp : Word} {sw : Switch} {os : Os}
    (h : boot .atmega2560 mainSp idleSp sw = .ok os) :
    ∃ main spawned entered done pid, bootMain .atmega2560 mainSp = .ok main ∧
      spawnTask .atmega2560 (some "OS scheduler") 0 idleSp main = .ok (pid, spawned) ∧
      enterScheduler sw.sp spawned = .ok entered ∧
      schedulerRound .atmega2560 sw.mem entered = .ok done ∧ os = done.contextSwtich sw.schedulerSp := by
  simp only [boot, startScheduler, bind_eq_ok] at h
  obtain ⟨main, booted, ⟨pid, spawned⟩, spawn, entered, enter, done, round, last⟩ := h
  exact ⟨main, spawned, entered, done, pid, booted, spawn, enter, round, (pure_eq_ok.mp last).symm⟩

/-- Data memory with the canaries in place and a plausible return address everywhere above them. -/
def bootMemory : DataMemory := fun a => if a ≤ canaryStart then canaryValue else 1

/-- The first round, entered with the scheduler's stack pointer in block 1. -/
def bootSwitch : Switch := { sp := 0x800, mem := bootMemory, schedulerSp := 0x7DC }

theorem boot_succeeds : ∃ os, boot .atmega2560 0x1FF0 0x5A0 bootSwitch = .ok os :=
  Lib.ok_of_isOk (by decide +kernel)

theorem boot_reachable {mainSp idleSp : Word} {sw : Switch} {os : Os}
    (h : boot .atmega2560 mainSp idleSp sw = .ok os) : Reachable os :=
  ⟨mainSp, idleSp, sw, os, [], h, rfl⟩

end Simplos
