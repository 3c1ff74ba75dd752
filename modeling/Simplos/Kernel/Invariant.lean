import Simplos.Kernel.Spec

/-!
# The task table and the queue over whole runs

`KernelInv` says which slot is RUNNING (none while the scheduler chooses), which is the scheduler's,
and that the unconsumed entries of the queue are distinct READY slots. Each operation takes it to
`KernelInv` again; the run lemma is the invariant rule. The status part is a fact about the status
function alone, so an operation contributes one `Function.update`.
-/

namespace Simplos
set_option autoImplicit false
open Lib (bind_eq_ok bind_eq_error ok_bind)

/-- The status of each slot. -/
def Kernel.status (k : Kernel) : Fin tasksMax → TaskStatus := fun i => (k.tasks i).status

/-- The only scheduler slot and the only running slot, if any, and no task asleep. -/
structure StatusInv (st : Fin tasksMax → TaskStatus) (scheduler running : Option (Fin tasksMax)) : Prop where
  running : ∀ i, st i = .running ↔ running = some i
  scheduler : ∀ i, st i = .scheduler ↔ scheduler = some i
  awake : ∀ i, st i ≠ .sleeping

/-- The entries of the queue still to be consumed are distinct READY slots. -/
structure QueueInv (st : Fin tasksMax → TaskStatus) (queue : IndexQueue) (position : Byte) : Prop where
  bound : position.toNat < tasksMax
  queued : ∀ j : Fin taskQueueLength, (j : Nat) < position.toNat → ∃ i, queue j = slotIndex i ∧ st i = .ready
  distinct : ∀ j j' : Fin taskQueueLength, (j : Nat) < position.toNat → (j' : Nat) < position.toNat →
    queue j = queue j' → j = j'

structure KernelInv (k : Kernel) (scheduler running : Option (Fin tasksMax)) : Prop where
  status : StatusInv k.status scheduler running
  queue : QueueInv k.status k.schedule.queue.taskIndexQueue k.schedule.queue.queuePosition
  block : ∀ i, (k.tasks i).taskMemoryBlock = slotIndex i

/-! ## Changing one status -/

section Status

variable {st : Fin tasksMax → TaskStatus} {slot : Fin tasksMax} {scheduler running : Option (Fin tasksMax)}

/-- The running slot becomes READY or EMPTY. -/
theorem StatusInv.stop (inv : StatusInv st scheduler (some slot)) {s : TaskStatus}
    (stopped : s = .ready ∨ s = .empty) : StatusInv (Function.update st slot s) scheduler none := by
  have wasRunning : st slot = .running := (inv.running slot).mpr rfl
  constructor
  · intro i
    by_cases here : i = slot
    · subst here
      rcases stopped with rfl | rfl <;> simp
    · have other : st i ≠ .running := fun h => here (Option.some.inj ((inv.running i).mp h)).symm
      simp [Function.update_of_ne here, other]
  · intro i
    by_cases here : i = slot
    · subst here
      have notScheduler : ¬ scheduler = some i := fun h => by simp [(inv.scheduler i).mpr h] at wasRunning
      rcases stopped with rfl | rfl <;> simp [notScheduler]
    · simp [Function.update_of_ne here, inv.scheduler i]
  · intro i
    by_cases here : i = slot
    · subst here
      rcases stopped with rfl | rfl <;> simp
    · simpa [Function.update_of_ne here] using inv.awake i

/-- A READY or EMPTY slot becomes RUNNING. -/
theorem StatusInv.start (inv : StatusInv st scheduler none) (idle : st slot = .ready ∨ st slot = .empty) :
    StatusInv (Function.update st slot .running) scheduler (some slot) := by
  constructor
  · intro i
    by_cases here : i = slot
    · simp [here]
    · have other : st i ≠ .running := fun h => by simpa using (inv.running i).mp h
      simp [Function.update_of_ne here, other, Ne.symm here]
  · intro i
    by_cases here : i = slot
    · subst here
      have notScheduler : ¬ scheduler = some i := fun h => by simp [(inv.scheduler i).mpr h] at idle
      simp [notScheduler]
    · simp [Function.update_of_ne here, inv.scheduler i]
  · intro i
    by_cases here : i = slot
    · simp [here]
    · simpa [Function.update_of_ne here] using inv.awake i

/-- The running slot becomes the scheduler's. -/
theorem StatusInv.becomeScheduler (inv : StatusInv st none (some slot)) :
    StatusInv (Function.update st slot .scheduler) (some slot) none := by
  constructor
  · intro i
    by_cases here : i = slot
    · simp [here]
    · have other : st i ≠ .running := fun h => here (Option.some.inj ((inv.running i).mp h)).symm
      simp [Function.update_of_ne here, other]
  · intro i
    by_cases here : i = slot
    · simp [here]
    · have other : st i ≠ .scheduler := fun h => by simpa using (inv.scheduler i).mp h
      simp [Function.update_of_ne here, other, Ne.symm here]
  · intro i
    by_cases here : i = slot
    · simp [here]
    · simpa [Function.update_of_ne here] using inv.awake i

theorem QueueInv.empty (queue : IndexQueue) : QueueInv st queue 0 :=
  ⟨by decide, fun _ below => absurd below (Nat.not_lt_zero _), fun _ _ below => absurd below (Nat.not_lt_zero _)⟩

theorem QueueInv.shorter {queue : IndexQueue} {position position' : Byte} (inv : QueueInv st queue position)
    (le : position'.toNat ≤ position.toNat) : QueueInv st queue position' where
  bound := Nat.lt_of_le_of_lt le inv.bound
  queued j below := inv.queued j (by omega)
  distinct j j' below below' := inv.distinct j j' (by omega) (by omega)

/-- The queue only needs its own entries to stay READY. -/
theorem QueueInv.mono {queue : IndexQueue} {position : Byte} (inv : QueueInv st queue position)
    {st' : Fin tasksMax → TaskStatus}
    (kept : ∀ (j : Fin taskQueueLength) i, (j : Nat) < position.toNat → queue j = slotIndex i →
      st i = .ready → st' i = .ready) : QueueInv st' queue position := by
  refine ⟨inv.bound, fun j below => ?_, inv.distinct⟩
  obtain ⟨i, entry, ready⟩ := inv.queued j below
  exact ⟨i, entry, kept j i below entry ready⟩

end Status

theorem status_modifyTask (k : Kernel) (slot : Fin tasksMax) (f : SimplosTask → SimplosTask) :
    (k.modifyTask slot f).status = Function.update k.status slot (f (k.tasks slot)).status := by
  funext i
  by_cases here : i = slot
  · subst here
    simp [Kernel.status]
  · simp [Kernel.status, modifyTask_of_ne k slot f here, Function.update_of_ne here]

theorem status_modifyTask_same (k : Kernel) (slot : Fin tasksMax) {f : SimplosTask → SimplosTask}
    (kept : (f (k.tasks slot)).status = (k.tasks slot).status) : (k.modifyTask slot f).status = k.status := by
  rw [status_modifyTask, kept]
  exact Function.update_eq_self slot k.status

theorem block_modifyTask {k : Kernel} (block : ∀ i, (k.tasks i).taskMemoryBlock = slotIndex i)
    (slot : Fin tasksMax) {f : SimplosTask → SimplosTask}
    (kept : (f (k.tasks slot)).taskMemoryBlock = (k.tasks slot).taskMemoryBlock) (i : Fin tasksMax) :
    ((k.modifyTask slot f).tasks i).taskMemoryBlock = slotIndex i := by
  by_cases here : i = slot
  · subst here
    rw [modifyTask_self, kept, block i]
  · rw [modifyTask_of_ne k slot f here, block i]

/-- An assignment that leaves the status and the memory block of the slot alone. -/
theorem KernelInv.modify {k : Kernel} {scheduler running : Option (Fin tasksMax)}
    (inv : KernelInv k scheduler running) (slot : Fin tasksMax) {f : SimplosTask → SimplosTask}
    (status : (f (k.tasks slot)).status = (k.tasks slot).status)
    (block : (f (k.tasks slot)).taskMemoryBlock = (k.tasks slot).taskMemoryBlock) :
    KernelInv (k.modifyTask slot f) scheduler running := by
  have same := status_modifyTask_same k slot status
  exact ⟨same ▸ inv.status, same ▸ inv.queue, block_modifyTask inv.block slot block⟩

/-! ## The parts of a round -/

/-- At the start of a round the task that just stopped is still marked RUNNING, unless it ended or
is the scheduler itself. -/
structure RoundInv (k : Kernel) (scheduler : Option (Fin tasksMax)) (prev : Fin tasksMax) : Prop where
  active : k.schedule.activeTaskBlock = slotIndex prev
  kernel : KernelInv k scheduler (some prev) ∨ KernelInv k scheduler none

theorem RoundInv.save {os : Os} {scheduler : Option (Fin tasksMax)} {prev : Fin tasksMax} (inv : RoundInv os.kernel scheduler prev) :
    KernelInv (savePrevious prev os).kernel scheduler none := by
  rcases inv.kernel with running | stopped
  · have wasRunning : (os.kernel.tasks prev).status = .running := (running.status.running prev).mpr rfl
    simp only [savePrevious, wasRunning]
    refine ⟨?_, ?_, block_modifyTask running.block prev rfl⟩
    · rw [status_modifyTask]
      exact running.status.stop (.inl rfl)
    · rw [status_modifyTask]
      refine running.queue.mono fun j i below entry ready => ?_
      by_cases here : i = prev
      · simp [here]
      · rwa [Function.update_of_ne here]
  · have notRunning : (os.kernel.tasks prev).status ≠ .running := fun h => by
      simpa using (stopped.status.running prev).mp h
    unfold savePrevious
    split
    · rename_i isScheduler
      exact stopped.modify prev isScheduler.symm rfl
    · rename_i isRunning
      exact absurd isRunning notRunning
    · exact stopped

/-- The entry `entry` of the queue `q` selects a READY slot, and the entries below it are distinct
READY slots other than that one. -/
structure Selection (st : Fin tasksMax → TaskStatus) (q : TaskQueue) (entry : Fin taskQueueLength)
    (selected : Fin tasksMax) : Prop where
  position : q.queuePosition.toNat = entry
  entry : q.taskIndexQueue entry = slotIndex selected
  ready : st selected = .ready
  rest : QueueInv st q.taskIndexQueue q.queuePosition
  apart : ∀ j : Fin taskQueueLength, (j : Nat) < q.queuePosition.toNat → q.taskIndexQueue j ≠ slotIndex selected

theorem prioritized_pred {tasks : TaskTable} (some : prioritized tasks ≠ []) :
    (BitVec.ofNat 8 (prioritized tasks).length - 1).toNat + 1 = (prioritized tasks).length := by
  have length := prioritized_count tasks
  have positive : 0 < (prioritized tasks).length := List.length_pos_iff.mpr some
  rw [BitVec.toNat_sub_of_le (by rw [BitVec.le_def, length]; exact positive), length]
  exact Nat.sub_add_cancel positive

/-- Rescheduling queues distinct READY slots and selects one more of them. -/
theorem advance_refill {k : Kernel} (zero : k.schedule.queue.queuePosition = 0) (some : prioritized k.tasks ≠ []) :
    ∃ entry selected, Selection k.status k.schedule.queue.advance entry selected := by
  have all := prioritizeTasks_enumerates k.tasks k.schedule.queue.taskIndexQueue
  have length := prioritized_count k.tasks
  have short := prioritized_length_le k.tasks
  simp only [tasksMax] at short
  have ready : ∀ j : Fin taskQueueLength, (j : Nat) < (prioritized k.tasks).length →
      ∃ i, k.schedule.queue.advance.taskIndexQueue j = slotIndex i ∧ k.status i = .ready := by
    intro j below
    obtain ⟨i, eligible, entry⟩ := all.only j (by rwa [length])
    simp only [Bool.and_eq_true, isReady, decide_eq_true_eq] at eligible
    exact ⟨i, by rwa [TaskQueue.advance, if_pos zero], eligible.1⟩
  have distinct : ∀ j j' : Fin taskQueueLength, (j : Nat) < (prioritized k.tasks).length →
      (j' : Nat) < (prioritized k.tasks).length →
      k.schedule.queue.advance.taskIndexQueue j = k.schedule.queue.advance.taskIndexQueue j' → j = j' := by
    intro j j' below below' equal
    simp only [TaskQueue.advance, if_pos zero] at equal
    obtain ⟨i, eligible, entry⟩ := all.only j (by rwa [length])
    obtain ⟨_, _, unique⟩ := all.once i eligible
    exact (unique j ⟨by rwa [length], entry⟩).trans (unique j' ⟨by rwa [length], equal ▸ entry⟩).symm
  have bounded : k.schedule.queue.advance.queuePosition.toNat + 1 = (prioritized k.tasks).length := by
    rw [← prioritized_pred some, TaskQueue.advance, if_pos zero]
  obtain ⟨selected, entry, isReady⟩ := ready ⟨k.schedule.queue.advance.queuePosition.toNat, by
    simp only [taskQueueLength]
    omega⟩ (by simp only; omega)
  refine ⟨_, selected, rfl, entry, isReady, ⟨?_, fun j below => ready j (by omega),
    fun j j' below below' => distinct j j' (by omega) (by omega)⟩, fun j below same => ?_⟩
  · simp only [tasksMax]
    omega
  · have here := distinct j _ (by omega) (by simp only; omega) (same.trans entry.symm)
    subst here
    exact Nat.lt_irrefl _ below

/-- Stepping down selects the last unconsumed entry. -/
theorem advance_step {k : Kernel}
    (inv : QueueInv k.status k.schedule.queue.taskIndexQueue k.schedule.queue.queuePosition)
    (position : k.schedule.queue.queuePosition ≠ 0) :
    ∃ entry selected, Selection k.status k.schedule.queue.advance entry selected := by
  have bound := inv.bound
  simp only [tasksMax] at bound
  simp only [TaskQueue.advance, if_neg position]
  have down : (k.schedule.queue.queuePosition - 1).toNat + 1 = k.schedule.queue.queuePosition.toNat := by
    bv_omega
  obtain ⟨selected, entry, ready⟩ := inv.queued ⟨(k.schedule.queue.queuePosition - 1).toNat, by
    simp only [taskQueueLength]
    omega⟩ (by simp only; omega)
  refine ⟨_, selected, rfl, entry, ready, inv.shorter (by simp only; omega), fun j below same => ?_⟩
  have lower : (j : Nat) < (k.schedule.queue.queuePosition - 1).toNat := below
  have here := inv.distinct j _ (by omega) (by simp only; omega) (same.trans entry.symm)
  subst here
  exact Nat.lt_irrefl _ lower

/-- What a selection that did not run out of tasks finds in the queue. -/
theorem KernelInv.advance {k : Kernel} {scheduler : Option (Fin tasksMax)} (inv : KernelInv k scheduler none)
    (some : k.schedule.queue.queuePosition = 0 → prioritized k.tasks ≠ []) :
    ∃ entry selected, Selection k.status k.schedule.queue.advance entry selected := by
  by_cases zero : k.schedule.queue.queuePosition = 0
  · exact advance_refill zero (some zero)
  · exact advance_step inv.queue zero

theorem status_withAdvance (k : Kernel) : (k.withQueue k.schedule.queue.advance).status = k.status := by
  unfold Kernel.status
  rw [withQueue_tasks, advance_tasks]

/-- A selection picks a READY slot and leaves it out of the rest of the queue. -/
theorem KernelInv.select {os os' : Os} {scheduler : Option (Fin tasksMax)} {index : Byte}
    (inv : KernelInv os.kernel scheduler none) (h : selectNextTask .atmega2560 os = .ok (index, os')) :
    ∃ entry selected, index = slotIndex selected ∧
      Selection os.kernel.status os.kernel.schedule.queue.advance entry selected ∧
      os' = { os with
        kernel := os.kernel.withQueue os.kernel.schedule.queue.advance
        nextTaskSp := (os.kernel.tasks selected).taskSpAdr } := by
  obtain ⟨slot, selected, rfl, atSlot, entry, some, rfl⟩ := selectNextTask_ok h
  obtain ⟨slot', selected', selection⟩ := inv.advance some
  obtain rfl : slot = slot' := Fin.ext (atSlot.symm.trans selection.position)
  obtain rfl : selected = selected' := slotIndex_inj.mp (entry.symm.trans selection.entry)
  exact ⟨slot, selected, rfl, selection, rfl⟩

/-- The kernel after the selection of `next`. -/
theorem KernelInv.selected {k : Kernel} {scheduler : Option (Fin tasksMax)} {entry : Fin taskQueueLength}
    {next : Fin tasksMax} (inv : KernelInv k scheduler none)
    (selection : Selection k.status k.schedule.queue.advance entry next) :
    KernelInv (k.withQueue k.schedule.queue.advance) scheduler none := by
  refine ⟨?_, ?_, fun i => ?_⟩
  · rw [status_withAdvance]
    exact inv.status
  · rw [status_withAdvance]
    exact selection.rest
  · rw [withQueue_tasks, advance_tasks]
    exact inv.block i

/-- What a round leaves once `savePrevious` has put the previous task back: the queue advanced, the
selected slot active and RUNNING, its stack pointer in `next_task_sp`. -/
def Os.selected (os : Os) (next : Fin tasksMax) : Os :=
  { os with
    kernel := ((os.kernel.withQueue os.kernel.schedule.queue.advance).withActiveTaskBlock (slotIndex next)).modifyTask
      next fun t => { t with status := .running }
    nextTaskSp := (os.kernel.tasks next).taskSpAdr }

theorem selected_task (os : Os) (next : Fin tasksMax) :
    (os.selected next).kernel.tasks next = { os.kernel.tasks next with status := .running } := by
  refine (modifyTask_self (os.kernel.withQueue os.kernel.schedule.queue.advance) next
    fun t => { t with status := .running }).trans ?_
  rw [withQueue_tasks, advance_tasks]

/-- **A completed round.** -/
theorem RoundInv.round_ok {mem : DataMemory} {os os' : Os} {scheduler : Option (Fin tasksMax)} {prev : Fin tasksMax}
    (inv : RoundInv os.kernel scheduler prev) (h : schedulerRound .atmega2560 mem os = .ok os') :
    ∃ entry next,
      Selection (savePrevious prev os).kernel.status (savePrevious prev os).kernel.schedule.queue.advance entry next ∧
      blockLow next ≤ os'.nextTaskSp ∧ os'.nextTaskSp ≤ blockHigh next ∧ os' = (savePrevious prev os).selected next := by
  obtain ⟨prev', next, saved, selected, atPrev, handled, chosen, prepared⟩ := schedulerRound_ok h
  obtain rfl : prev' = prev := slotIndex_inj.mp (atPrev.symm.trans inv.active)
  obtain ⟨rfl, -⟩ := handlePreviousTask_ok handled
  obtain ⟨entry, next', index, selection, rfl⟩ := inv.save.select chosen
  obtain rfl : next = next' := slotIndex_inj.mp index
  obtain ⟨integrity, -, -, rfl⟩ := prepareNextTask_ok prepared
  have bounds := assertTaskPointerIntegrity_bounds ((inv.save.selected selection).block next) integrity
  have held : ((savePrevious prev' os).kernel.schedule.queue.advance.tasks next).taskSpAdr =
      ((savePrevious prev' os).kernel.tasks next).taskSpAdr := by rw [advance_tasks]
  exact ⟨entry, next, selection, held ▸ bounds.1, held ▸ bounds.2, rfl⟩

theorem KernelInv.resumed {os : Os} {scheduler : Option (Fin tasksMax)} {entry : Fin taskQueueLength}
    {next : Fin tasksMax} (inv : KernelInv os.kernel scheduler none)
    (selection : Selection os.kernel.status os.kernel.schedule.queue.advance entry next) :
    KernelInv (os.selected next).kernel scheduler (some next) := by
  have chosen := inv.selected selection
  have status : (os.selected next).kernel.status = Function.update os.kernel.status next .running := by
    rw [← status_withAdvance os.kernel]
    exact status_modifyTask (os.kernel.withQueue os.kernel.schedule.queue.advance) next
      fun t => { t with status := .running }
  refine ⟨?_, ?_, ?_⟩
  · rw [status]
    exact inv.status.start (.inl selection.ready)
  · rw [status]
    refine QueueInv.mono selection.rest fun j i below entry ready => ?_
    have other : i ≠ next := fun same => selection.apart j below (same ▸ entry)
    rwa [Function.update_of_ne other]
  · exact block_modifyTask chosen.block next (f := fun t => { t with status := .running }) rfl

/-- A completed round leaves the selected task RUNNING and active. -/
theorem RoundInv.round {mem : DataMemory} {os os' : Os} {scheduler : Option (Fin tasksMax)} {prev : Fin tasksMax}
    (inv : RoundInv os.kernel scheduler prev) (h : schedulerRound .atmega2560 mem os = .ok os') :
    ∃ next, os'.kernel.schedule.activeTaskBlock = slotIndex next ∧ KernelInv os'.kernel scheduler (some next) := by
  obtain ⟨entry, next, selection, -, -, rfl⟩ := inv.round_ok h
  exact ⟨next, rfl, inv.save.resumed selection⟩

/-! ## The actions of a user task -/

/-- A user task executes: its slot is active and RUNNING, and the next switch goes to the scheduler. -/
structure UserInv (os : Os) (scheduler : Option (Fin tasksMax)) (current : Fin tasksMax) : Prop where
  active : os.kernel.schedule.activeTaskBlock = slotIndex current
  kernel : KernelInv os.kernel scheduler (some current)
  noneScheduled : os.nextTaskSp = 0

theorem createSimplosTask_status {name : ProgmemString} {priority index : Byte} {k k' : Kernel}
    (h : createSimplosTask .atmega2560 name priority k = .ok (index, k')) :
    ∃ slot, index = slotIndex slot ∧ k.status slot = .empty ∧
      k'.status = Function.update k.status slot .running ∧
      ((∀ i, (k.tasks i).taskMemoryBlock = slotIndex i) → ∀ i, (k'.tasks i).taskMemoryBlock = slotIndex i) := by
  obtain ⟨slot, high, first, rfl, -, rfl⟩ := createSimplosTask_ok h
  exact ⟨slot, rfl, firstEmpty_some first, status_modifyTask k slot _, fun block => block_modifyTask block slot rfl⟩

theorem spawned_status (k : Kernel) (name : ProgmemString) (priority : Byte) (sp high : Word)
    (new old : Fin tasksMax) : (k.spawned name priority sp high new old).status =
      Function.update (Function.update k.status new .running) old .ready := by
  have both := status_modifyTask (k.modifyTask new fun t => { t with
      priority := priority, status := .running, taskSpAdr := high, pid := k.pidCnt, name := name }) old
    fun t => { t with status := .ready, taskSpAdr := sp }
  refine Eq.trans both ?_
  rw [status_modifyTask]

theorem spawned_block {k : Kernel} (block : ∀ i, (k.tasks i).taskMemoryBlock = slotIndex i) (name : ProgmemString)
    (priority : Byte) (sp high : Word) (new old i : Fin tasksMax) :
    ((k.spawned name priority sp high new old).tasks i).taskMemoryBlock = slotIndex i :=
  block_modifyTask (block_modifyTask block new (f := fun t => { t with
      priority := priority, status := .running, taskSpAdr := high, pid := k.pidCnt, name := name }) rfl) old
    (f := fun t => { t with status := .ready, taskSpAdr := sp }) rfl i

/-- After `spawn_task` the new slot is RUNNING and the parent READY. -/
theorem UserInv.spawn {name : ProgmemString} {priority : Byte} {sp pid : Word} {os os' : Os}
    {scheduler : Option (Fin tasksMax)} {old : Fin tasksMax} (inv : UserInv os scheduler old)
    (h : spawnTask .atmega2560 name priority sp os = .ok (pid, os')) :
    ∃ new, UserInv os' scheduler new := by
  obtain ⟨new, old', high, first, active, -, -, kernel, -, next, -⟩ := spawnTask_ok h
  obtain rfl : old' = old := slotIndex_inj.mp (active.symm.trans inv.active)
  have empty : os.kernel.status new = .empty := firstEmpty_some first
  have wasRunning : os.kernel.status old' = .running := (inv.kernel.status.running old').mpr rfl
  have apart : old' ≠ new := fun same => by simp [same, empty] at wasRunning
  have final : os'.kernel.status =
      Function.update (Function.update os.kernel.status old' .ready) new .running := by
    rw [kernel, spawned_status, Function.update_comm apart]
  refine ⟨new, by rw [kernel]; rfl, ⟨?_, ?_, ?_⟩, by rw [next, inv.noneScheduled]⟩
  · rw [final]
    exact (inv.kernel.status.stop (.inl rfl)).start (.inr (by rwa [Function.update_of_ne apart.symm]))
  · rw [kernel]
    exact .empty _
  · rw [kernel]
    exact spawned_block inv.kernel.block name priority sp high new old'

theorem UserInv.setPriority {priority : Byte} {os : Os} {k : Kernel} {scheduler : Option (Fin tasksMax)} {current : Fin tasksMax}
    (inv : UserInv os scheduler current) (h : Simplos.setPriority priority os.kernel = .ok k) :
    UserInv { os with kernel := k } scheduler current := by
  obtain ⟨slot, active, rfl⟩ := setPriority_ok h
  exact ⟨inv.active, inv.kernel.modify slot rfl rfl, inv.noneScheduled⟩

/-- The switch away from a task that yields or is preempted starts a round. -/
theorem UserInv.yielding {os : Os} {scheduler : Option (Fin tasksMax)} {current : Fin tasksMax} (inv : UserInv os scheduler current) :
    RoundInv os.kernel scheduler current :=
  ⟨inv.active, .inl inv.kernel⟩

/-- So does the switch away from a task that ended; its slot is EMPTY by then. -/
theorem UserInv.killed {os : Os} {k : Kernel} {scheduler : Option (Fin tasksMax)} {current : Fin tasksMax}
    (inv : UserInv os scheduler current) (h : killCurrentTask .atmega2560 os.kernel = .ok k) :
    RoundInv k scheduler current := by
  obtain ⟨slot, active, rfl⟩ := killCurrentTask_ok h
  obtain rfl : slot = current := slotIndex_inj.mp (active.symm.trans inv.active)
  have status := status_modifyTask os.kernel slot
    fun t => { t with status := .empty, taskSpAdr := blockHigh slot, name := some "" }
  have block := block_modifyTask inv.kernel.block slot
    (f := fun t => { t with status := .empty, taskSpAdr := blockHigh slot, name := some "" }) rfl
  exact ⟨inv.active, .inr ⟨status ▸ inv.kernel.status.stop (.inr rfl), .empty _, block⟩⟩

/-- A switch to the scheduler, its round, and its switch to the task it selected. -/
theorem RoundInv.switchAway {sw : Switch} {os os' : Os} {scheduler : Option (Fin tasksMax)} {prev : Fin tasksMax}
    (inv : RoundInv os.kernel scheduler prev) (none : os.nextTaskSp = 0)
    (h : os.switchAway .atmega2560 sw = .ok os') : ∃ next, UserInv os' scheduler next := by
  rw [Os.switchAway, if_pos none, bind_eq_ok] at h
  obtain ⟨done, round, last⟩ := h
  obtain rfl := pure_eq_ok.mp last
  have atRound : RoundInv (os.contextSwtich sw.sp).kernel scheduler prev := inv
  obtain ⟨next, active, kernel⟩ := atRound.round round
  exact ⟨next, active, kernel, rfl⟩

/-- **One action preserves the invariant.** -/
theorem UserInv.step {os os' : Os} {scheduler : Option (Fin tasksMax)} {current : Fin tasksMax} {a : Action}
    (inv : UserInv os scheduler current) (h : os.step .atmega2560 a = .ok os') :
    ∃ next, UserInv os' scheduler next := by
  cases a with
  | spawn name priority sp =>
    obtain ⟨⟨pid, after⟩, spawned, last⟩ := bind_eq_ok.mp h
    obtain rfl := pure_eq_ok.mp last
    exact inv.spawn spawned
  | setPriority priority =>
    obtain ⟨k, set, last⟩ := bind_eq_ok.mp h
    obtain rfl := pure_eq_ok.mp last
    exact ⟨current, inv.setPriority set⟩
  | yield sw => exact inv.yielding.switchAway inv.noneScheduled h
  | kill sw =>
    obtain ⟨k, killed, rest⟩ := bind_eq_ok.mp h
    have ended : RoundInv { os with kernel := k : Os }.kernel scheduler current := inv.killed killed
    exact ended.switchAway inv.noneScheduled rest

/-! ## Booting -/

theorem initialKernel_inv : KernelInv initialKernel none none where
  status := ⟨fun _ => ⟨nofun, nofun⟩, fun _ => ⟨nofun, nofun⟩, fun _ => nofun⟩
  queue := .empty _
  block _ := rfl

/-- `main` leaves the idle task as the only one. -/
theorem bootMain_inv {sp : Word} {os : Os} (h : bootMain .atmega2560 sp = .ok os) : UserInv os none 0 := by
  obtain ⟨created, make, kernel, -, next, -⟩ := bootMain_ok h
  obtain ⟨slot, index, empty, status, block⟩ := createSimplosTask_status make
  obtain rfl : 0 = slot := slotIndex_inj.mp index
  have active : created.schedule.activeTaskBlock = slotIndex 0 := by
    obtain ⟨-, -, -, -, -, rfl⟩ := createSimplosTask_ok make
    rfl
  have final : os.kernel.status = created.status := by rw [kernel]; rfl
  refine ⟨by rw [kernel]; exact active, ⟨?_, ?_, ?_⟩, next⟩
  · rw [final, status]
    exact initialKernel_inv.status.start (.inr empty)
  · rw [kernel]
    exact .empty _
  · rw [kernel]
    exact block initialKernel_inv.block

/-- The slot of `start_scheduler` becomes the scheduler's, and no task runs during the first round. -/
theorem UserInv.enter {sp : Word} {os os' : Os} {current : Fin tasksMax} (inv : UserInv os none current)
    (h : enterScheduler sp os = .ok os') : RoundInv os'.kernel (some current) current := by
  obtain ⟨slot, active, rfl⟩ := enterScheduler_ok h
  obtain rfl : slot = current := slotIndex_inj.mp (active.symm.trans inv.active)
  have wasRunning : os.kernel.status slot = .running := (inv.kernel.status.running slot).mpr rfl
  refine ⟨inv.active, .inr ⟨?_, ?_, block_modifyTask inv.kernel.block slot rfl⟩⟩
  · rw [status_modifyTask]
    exact inv.kernel.status.becomeScheduler
  · rw [status_modifyTask]
    refine inv.kernel.queue.mono fun j i below entry ready => ?_
    have other : i ≠ slot := fun same => by simp [same, wasRunning] at ready
    rwa [Function.update_of_ne other]

/-- The states of `boot` before its first round. -/
theorem booting_inv {mainSp idleSp sp pid : Word} {main spawned os : Os} (booted : bootMain .atmega2560 mainSp = .ok main)
    (spawn : spawnTask .atmega2560 (some "OS scheduler") 0 idleSp main = .ok (pid, spawned))
    (enter : enterScheduler sp spawned = .ok os) : ∃ scheduler, RoundInv os.kernel (some scheduler) scheduler := by
  obtain ⟨scheduler, inv⟩ := (bootMain_inv booted).spawn spawn
  exact ⟨scheduler, inv.enter enter⟩

/-- The first round of `start_scheduler` and the state it starts in. -/
theorem startScheduler_ok {mainSp idleSp pid : Word} {sw : Switch} {main spawned os : Os}
    (booted : bootMain .atmega2560 mainSp = .ok main)
    (spawn : spawnTask .atmega2560 (some "OS scheduler") 0 idleSp main = .ok (pid, spawned))
    (start : startScheduler .atmega2560 sw spawned = .ok os) :
    ∃ slot entered done, (spawned.kernel.tasks slot).status = .running ∧
      entered.kernel = spawned.kernel.modifyTask slot (fun t => { t with status := .scheduler }) ∧
      RoundInv entered.kernel (some slot) slot ∧ schedulerRound .atmega2560 sw.mem entered = .ok done ∧
      os = done.contextSwtich sw.schedulerSp := by
  obtain ⟨entered, enter, rest⟩ := bind_eq_ok.mp start
  obtain ⟨done, round, last⟩ := bind_eq_ok.mp rest
  obtain ⟨current, user⟩ := (bootMain_inv booted).spawn spawn
  have inv := user.enter enter
  obtain ⟨slot, active, rfl⟩ := enterScheduler_ok enter
  obtain rfl : slot = current := slotIndex_inj.mp (active.symm.trans user.active)
  exact ⟨slot, _, done, (user.kernel.status.running slot).mpr rfl, rfl, inv, round, (pure_eq_ok.mp last).symm⟩

theorem boot_inv {mainSp idleSp : Word} {sw : Switch} {os : Os}
    (h : boot .atmega2560 mainSp idleSp sw = .ok os) : ∃ scheduler current, UserInv os (some scheduler) current := by
  obtain ⟨main, spawned, entered, done, pid, booted, spawn, enter, round, rfl⟩ := boot_ok h
  obtain ⟨scheduler, inv⟩ := booting_inv booted spawn enter
  obtain ⟨next, active, kernel⟩ := inv.round round
  exact ⟨scheduler, next, active, kernel, rfl⟩

/-- **The invariant of a run.** -/
theorem Reachable.inv {os : Os} (reached : Reachable os) :
    ∃ scheduler current, UserInv os (some scheduler) current := by
  obtain ⟨mainSp, idleSp, sw, start, actions, booted, run⟩ := reached
  obtain ⟨scheduler, current, inv⟩ := boot_inv booted
  have kept := Lib.run_invariant (fun os => ∃ current, UserInv os (some scheduler) current)
    (fun _ _ _ ⟨_, inv⟩ step => inv.step step) ⟨current, inv⟩ run
  exact ⟨scheduler, kept⟩

/-- The kernel at the start of a round. -/
theorem RoundStart.inv {os : Os} (start : RoundStart os) : ∃ scheduler prev, RoundInv os.kernel (some scheduler) prev := by
  cases start with
  | first booted spawn enter =>
    obtain ⟨scheduler, inv⟩ := booting_inv booted spawn enter
    exact ⟨scheduler, scheduler, inv⟩
  | yield sp reached =>
    obtain ⟨scheduler, current, inv⟩ := reached.inv
    exact ⟨scheduler, current, inv.yielding⟩
  | kill sp reached killed =>
    obtain ⟨scheduler, current, inv⟩ := reached.inv
    exact ⟨scheduler, current, inv.killed killed⟩

end Simplos
