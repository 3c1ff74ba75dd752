import Simplos.Kernel.Invariant

/-!
# The halts no run reaches

An operation that starts in an invariant state may stop in an assertion or because no task is left,
but it never indexes an array outside its bounds, and no round ends in one of the two fatal errors of
`prepare_next_task`. The last theorem collects what holds of every state of a run.
-/

namespace Simplos
set_option autoImplicit false
open Lib (Avoids ok_bind)

/-- An access outside an array, and the fatal errors of `prepare_next_task`. -/
def Impossible (h : Halt) : Prop :=
  h = .outOfBounds ∨ h = .fatalError "Error, can not select an empty task!\n" ∨
    h = .fatalError "ERROR, Can not select scheduler task selected as next task!\n"

instance : DecidablePred Impossible := fun _ => inferInstanceAs (Decidable (_ ∨ _))

/-! ## The checks -/

section Checks

variable (b : Build) (mem : DataMemory)

theorem avoids_assert (cond : Bool) (message : String) : Avoids Impossible (assert b cond message) := by
  intro e failed
  cases cond <;> cases b <;> cases failed
  simp [Impossible]

theorem avoids_fatalError {message : String} (possible : ¬ Impossible (.fatalError message)) :
    Avoids Impossible (fatalError b message) := by
  intro e failed
  cases b <;> cases failed
  exact possible

theorem avoids_fatalIf (cond : Bool) {message : String} (possible : ¬ Impossible (.fatalError message)) :
    Avoids Impossible (fatalIf b cond message) := by
  unfold fatalIf
  split
  · exact avoids_fatalError b possible
  · exact .ok ()

theorem avoids_memAdrBelongsToTask (adr : Word) (slot : Fin tasksMax) (k : Kernel) :
    Avoids Impossible (memAdrBelongsToTask adr (slotIndex slot) k) := by
  rw [memAdrBelongsToTask, derefTask_slotIndex, ok_bind]
  exact .ok _

theorem avoids_verifyCanaries : Avoids Impossible (verifyCanaries b mem) :=
  .forM fun _ _ => avoids_assert _ _ _

theorem avoids_assertTaskPointerIntegrity {task : SimplosTask} {slot : Fin tasksMax} (k : Kernel)
    (block : task.taskMemoryBlock = slotIndex slot) : Avoids Impossible (assertTaskPointerIntegrity b mem task k) := by
  unfold assertTaskPointerIntegrity
  simp only [block, taskSpRangeHigh_slot, taskSpRangeLow_slot, ok_bind]
  refine .bind (avoids_assert _ _ _) fun _ _ => .bind (avoids_memAdrBelongsToTask _ _ _) fun _ _ => ?_
  refine .bind (avoids_assert _ _ _) fun _ _ => .bind (avoids_memAdrBelongsToTask _ _ _) fun _ _ => ?_
  refine .bind (avoids_assert _ _ _) fun _ _ => .bind (avoids_verifyCanaries _ _) fun _ _ => ?_
  exact avoids_fatalIf b _ (by decide)

theorem avoids_assertStackPointerPointsToValidReturnAddress (sp : Word) :
    Avoids Impossible (assertStackPointerPointsToValidReturnAddress b mem sp) :=
  .bind (avoids_assert _ _ _) fun _ _ => avoids_assert _ _ _

end Checks

/-! ## A round -/

theorem avoids_handlePreviousTask {mem : DataMemory} {os : Os} {scheduler : Option (Fin tasksMax)}
    {prev : Fin tasksMax} (inv : RoundInv os.kernel scheduler prev) :
    Avoids Impossible (handlePreviousTask .atmega2560 mem prev os) := by
  unfold handlePreviousTask
  split
  · exact .ok _
  · refine .bind (avoids_assertTaskPointerIntegrity _ _ _ (inv.save.block prev)) fun _ _ => ?_
    exact .bind (avoids_assertStackPointerPointsToValidReturnAddress _ _ _) fun _ _ => .ok _

theorem avoids_moveQueuePosition (k : Kernel) : Avoids Impossible (moveQueuePosition .atmega2560 k) := by
  simp only [moveQueuePosition]
  split
  · simp only [reschedule, prioritizeTasks_eq, ok_bind]
    exact .bind (avoids_fatalIf _ _ (by decide)) fun _ _ => .ok _
  · exact .ok _

theorem avoids_selectNextTask {os : Os} {scheduler : Option (Fin tasksMax)}
    (inv : KernelInv os.kernel scheduler none) : Avoids Impossible (selectNextTask .atmega2560 os) := by
  refine .bind (avoids_moveQueuePosition _) fun k moved => ?_
  obtain ⟨some, rfl⟩ := moveQueuePosition_ok moved
  obtain ⟨entry, selected, selection⟩ := inv.advance some
  have atEntry := queueSlot_ok.mpr selection.position
  simp only [withQueue_queue, atEntry, ok_bind, selection.entry, derefTask_slotIndex]
  exact .ok _

/-- The selected task is READY, so neither fatal error of `prepare_next_task` is taken. -/
theorem avoids_prepareNextTask {mem : DataMemory} {os : Os} {next : Fin tasksMax}
    (block : (os.kernel.tasks next).taskMemoryBlock = slotIndex next) (ready : os.kernel.status next = .ready) :
    Avoids Impossible (prepareNextTask .atmega2560 mem next os) := by
  refine .bind (avoids_assertTaskPointerIntegrity _ _ _ block) fun _ _ => ?_
  have status : (os.kernel.tasks next).status = .ready := ready
  simp only [status]
  exact .ok _

/-- **A round stops only in an assertion or for want of a task.** -/
theorem avoids_schedulerRound {mem : DataMemory} {os : Os} {scheduler : Option (Fin tasksMax)}
    {prev : Fin tasksMax} (inv : RoundInv os.kernel scheduler prev) :
    Avoids Impossible (schedulerRound .atmega2560 mem os) := by
  simp only [schedulerRound, indexOfCurrentTask, inv.active, derefTask_slotIndex, ok_bind]
  refine .bind (avoids_handlePreviousTask inv) fun saved handled => ?_
  obtain ⟨rfl, -⟩ := handlePreviousTask_ok handled
  refine .bind (avoids_selectNextTask inv.save) ?_
  rintro ⟨index, selected⟩ chosen
  obtain ⟨entry, next, rfl, selection, rfl⟩ := inv.save.select chosen
  simp only [withActiveTaskBlock_activeTaskBlock, derefTask_slotIndex, ok_bind]
  have ready := congrFun (status_withAdvance (savePrevious prev os).kernel) next
  exact avoids_prepareNextTask ((inv.save.selected selection).block next) (ready.trans selection.ready)

/-! ## The actions of a user task -/

theorem avoids_createSimplosTask {name : ProgmemString} {priority : Byte} {k : Kernel}
    (block : ∀ i, (k.tasks i).taskMemoryBlock = slotIndex i) :
    Avoids Impossible (createSimplosTask .atmega2560 name priority k) := by
  unfold createSimplosTask addToTaskList
  split
  · rename_i slot first
    have atBlock : (k.schedule.queue.tasks slot).taskMemoryBlock = slotIndex slot := block slot
    simp only [atBlock, taskSpRangeHigh_slot, ok_bind, pure_bind, derefTask_slotIndex]
    exact .ok _
  · refine .bind ?_ fun _ stopped => by simp [fatalError] at stopped
    exact .bind (avoids_fatalError _ (by decide)) fun _ _ => .ok _

theorem avoids_spawnTask {name : ProgmemString} {priority : Byte} {sp : Word} {os : Os}
    {scheduler : Option (Fin tasksMax)} {current : Fin tasksMax} (inv : UserInv os scheduler current) :
    Avoids Impossible (spawnTask .atmega2560 name priority sp os) := by
  refine .bind (avoids_createSimplosTask inv.kernel.block) fun ⟨index, created⟩ make => ?_
  obtain ⟨new, -, -, rfl, -, rfl⟩ := createSimplosTask_ok make
  simp only [derefTask_slotIndex, ok_bind, indexOfCurrentTask, modifyTask_activeTaskBlock,
    withActiveTaskBlock_activeTaskBlock, inv.active]
  exact .ok _

theorem avoids_switchAway {sw : Switch} {os : Os} {scheduler : Option (Fin tasksMax)} {prev : Fin tasksMax}
    (inv : RoundInv os.kernel scheduler prev) : Avoids Impossible (os.switchAway .atmega2560 sw) := by
  unfold Os.switchAway
  split
  · have atRound : RoundInv (os.contextSwtich sw.sp).kernel scheduler prev := inv
    exact .bind (avoids_schedulerRound atRound) fun _ _ => .ok _
  · exact .ok _

theorem avoids_step {os : Os} {scheduler : Option (Fin tasksMax)} {current : Fin tasksMax}
    (inv : UserInv os scheduler current) (a : Action) : Avoids Impossible (os.step .atmega2560 a) := by
  cases a with
  | spawn name priority sp => exact .bind (avoids_spawnTask inv) fun _ _ => .ok _
  | setPriority priority =>
    simp only [Os.step, setPriority, indexOfCurrentTask, inv.active, derefTask_slotIndex, ok_bind]
    exact .ok _
  | yield sw => exact avoids_switchAway inv.yielding
  | kill sw =>
    have atKill : Avoids Impossible (killCurrentTask .atmega2560 os.kernel) := by
      simp only [killCurrentTask, indexOfCurrentTask, inv.active, derefTask_slotIndex, taskSpRangeHigh_slot, ok_bind]
      exact .ok _
    refine .bind atKill fun k killed => ?_
    have ended : RoundInv { os with kernel := k : Os }.kernel scheduler current := inv.killed killed
    exact avoids_switchAway ended

/-! ## Every state of a run -/

/-- The statuses of the five slots, their memory blocks, and the unconsumed entries of the queue. -/
structure Consistent (k : Kernel) (schedulerSlot current : Fin tasksMax) : Prop where
  active : k.schedule.activeTaskBlock = slotIndex current
  running : ∀ i, k.status i = .running ↔ i = current
  scheduler : ∀ i, k.status i = .scheduler ↔ i = schedulerSlot
  others : ∀ i, i ≠ current → i ≠ schedulerSlot → k.status i = .ready ∨ k.status i = .empty
  block : ∀ i, (k.tasks i).taskMemoryBlock = slotIndex i
  queued : ∀ j : Fin taskQueueLength, (j : Nat) < k.schedule.queue.queuePosition.toNat →
    ∃ i, k.schedule.queue.taskIndexQueue j = slotIndex i ∧ k.status i = .ready ∧ i ≠ current
  distinct : ∀ j j' : Fin taskQueueLength, (j : Nat) < k.schedule.queue.queuePosition.toNat →
    (j' : Nat) < k.schedule.queue.queuePosition.toNat →
    k.schedule.queue.taskIndexQueue j = k.schedule.queue.taskIndexQueue j' → j = j'
  position : k.schedule.queue.queuePosition.toNat < tasksMax

theorem UserInv.consistent {os : Os} {scheduler current : Fin tasksMax}
    (inv : UserInv os (some scheduler) current) : Consistent os.kernel scheduler current where
  active := inv.active
  running i := (inv.kernel.status.running i).trans ⟨fun h => (Option.some.inj h).symm, congrArg some ∘ Eq.symm⟩
  scheduler i := (inv.kernel.status.scheduler i).trans ⟨fun h => (Option.some.inj h).symm, congrArg some ∘ Eq.symm⟩
  others i notRunning notScheduler := by
    have running := inv.kernel.status.running i
    have scheduler := inv.kernel.status.scheduler i
    have awake := inv.kernel.status.awake i
    cases status : os.kernel.status i with
    | ready => exact .inl rfl
    | empty => exact .inr rfl
    | running => exact absurd (Option.some.inj (running.mp status)).symm notRunning
    | scheduler => exact absurd (Option.some.inj (scheduler.mp status)).symm notScheduler
    | sleeping => exact absurd status awake
  block := inv.kernel.block
  queued j below := by
    obtain ⟨i, entry, ready⟩ := inv.kernel.queue.queued j below
    refine ⟨i, entry, ready, fun same => ?_⟩
    have running : os.kernel.status i = .running := (inv.kernel.status.running i).mpr (congrArg some same.symm)
    simp [ready] at running
  distinct := inv.kernel.queue.distinct
  position := inv.kernel.queue.bound

/-- A selection made at the start of a round picks a READY slot. -/
theorem RoundInv.selects_ready {mem : DataMemory} {os saved os' : Os} {scheduler : Option (Fin tasksMax)}
    {prev : Fin tasksMax} {index : Byte} (inv : RoundInv os.kernel scheduler prev)
    (handled : handlePreviousTask .atmega2560 mem prev os = .ok saved)
    (chosen : selectNextTask .atmega2560 saved = .ok (index, os')) :
    ∃ i, index = slotIndex i ∧ saved.kernel.status i = .ready := by
  obtain ⟨rfl, -⟩ := handlePreviousTask_ok handled
  obtain ⟨entry, selected, index, selection, -⟩ := inv.save.select chosen
  exact ⟨selected, index, selection.ready⟩

/-- **The task table and the queue over whole runs.** Every state of a run in which a user task
executes is consistent; every selection of the scheduler picks a READY slot, neither fatal error of
`prepare_next_task` is reached, and no operation accesses an array outside its bounds. -/
theorem run_consistent :
    (∀ os, Reachable os →
      (∃ scheduler current, Consistent os.kernel scheduler current) ∧
      ∀ a, os.step .atmega2560 a ≠ .error .outOfBounds) ∧
    ∀ os, RoundStart os → ∀ mem,
      (∀ prev saved index os', os.kernel.schedule.activeTaskBlock = slotIndex prev →
        handlePreviousTask .atmega2560 mem prev os = .ok saved →
        selectNextTask .atmega2560 saved = .ok (index, os') →
        ∃ i, index = slotIndex i ∧ saved.kernel.status i = .ready) ∧
      schedulerRound .atmega2560 mem os ≠ .error (.fatalError "Error, can not select an empty task!\n") ∧
      schedulerRound .atmega2560 mem os ≠
        .error (.fatalError "ERROR, Can not select scheduler task selected as next task!\n") ∧
      schedulerRound .atmega2560 mem os ≠ .error .outOfBounds := by
  refine ⟨fun os reached => ?_, fun os start mem => ?_⟩
  · obtain ⟨scheduler, current, inv⟩ := reached.inv
    exact ⟨⟨scheduler, current, inv.consistent⟩, fun a stopped => avoids_step inv a _ stopped (by decide)⟩
  · obtain ⟨scheduler, prev, inv⟩ := start.inv
    have avoids := @avoids_schedulerRound mem _ _ _ inv
    refine ⟨fun prev' saved index os' active handled chosen => ?_, fun stopped => avoids _ stopped (by decide),
      fun stopped => avoids _ stopped (by decide), fun stopped => avoids _ stopped (by decide)⟩
    obtain rfl : prev' = prev := slotIndex_inj.mp (active.symm.trans inv.active)
    exact inv.selects_ready handled chosen

theorem run_consistent_after_boot :
    ∃ os, boot .atmega2560 0x1FF0 0x5A0 bootSwitch = .ok os ∧ (∃ scheduler current, Consistent os.kernel scheduler current) ∧
      schedulerRound .atmega2560 bootMemory (os.contextSwtich 0x5A0) ≠ .error .outOfBounds := by
  obtain ⟨os, booted⟩ := boot_succeeds
  have reached := boot_reachable booted
  exact ⟨os, booted, (run_consistent.1 os reached).1, (run_consistent.2 _ (.yield 0x5A0 reached) bootMemory).2.2.2⟩

end Simplos
