import Simplos.Kernel.Invariant

/-!
# One cycle of the queue

A reschedule fills the queue in ascending order and the rounds consume it backwards. `Consuming`
describes the queue during the round that selects a task and `Unconsumed` between rounds; a round
takes the first to the second, and nothing a task does between rounds touches either.
-/

namespace Simplos
set_option autoImplicit false
open Lib (bind_eq_ok ok_bind)

/-! ## Rounds with what they select -/

/-- What one round did: whether `select_next_task` found the queue at position 0 and rescheduled,
the index it returned, and the status of that slot at that moment. -/
structure Observation where
  rescheduled : Bool
  selected : Byte
  statusWhenSelected : TaskStatus
deriving DecidableEq

/-- `schedulerRound`, observed. -/
def observedRound (b : Build) (mem : DataMemory) (os : Os) : Exec (Observation × Os) := do
  let prev ← derefTask (indexOfCurrentTask os.kernel)
  let saved ← handlePreviousTask b mem prev os
  let (index, selected) ← selectNextTask b saved
  let slot ← derefTask index
  let after ← schedulerRound b mem os
  return ({ rescheduled := decide (saved.kernel.schedule.queue.queuePosition = 0)
            selected := index
            statusWhenSelected := (selected.kernel.tasks slot).status }, after)

/-- One round and the time slice it starts: the scheduler's switch to the selected task, the calls
of `set_priority` that task makes, and the switch away from it when it yields or is preempted. -/
structure Turn where
  mem : DataMemory
  schedulerSp : Word
  priorities : List Byte
  sp : Word

/-- The state is the one at the start of a round, with what the rounds so far did. -/
def takeTurn (b : Build) (s : Os × List Observation) (t : Turn) : Exec (Os × List Observation) := do
  let (seen, os) ← observedRound b t.mem s.1
  let os := os.contextSwtich t.schedulerSp
  let kernel ← t.priorities.foldlM (fun kernel priority => setPriority priority kernel) os.kernel
  return ({ os with kernel := kernel }.contextSwtich t.sp, s.2 ++ [seen])

/-! ## The queue during a cycle -/

/-- The rounds to come will select the slots `r` in this order. -/
structure Unconsumed (q : TaskQueue) (r : List (Fin tasksMax)) : Prop where
  position : q.queuePosition.toNat = r.length
  entries : ∀ (j : Fin taskQueueLength) (i : Fin tasksMax), r.reverse[(j : Nat)]? = some i →
    q.taskIndexQueue j = slotIndex i

/-- The queue is positioned at the entry of `s`, with the slots `r` to come after it. -/
structure Consuming (q : TaskQueue) (s : Fin tasksMax) (r : List (Fin tasksMax)) : Prop where
  position : q.queuePosition.toNat = r.length
  entries : ∀ (j : Fin taskQueueLength) (i : Fin tasksMax), (s :: r).reverse[(j : Nat)]? = some i →
    q.taskIndexQueue j = slotIndex i

section Queue

variable {q : TaskQueue} {s : Fin tasksMax} {r : List (Fin tasksMax)}

theorem Consuming.rest (h : Consuming q s r) : Unconsumed q r := by
  refine ⟨h.position, fun j i entry => h.entries j i ?_⟩
  obtain ⟨below, -⟩ := List.getElem?_eq_some_iff.mp entry
  rw [List.reverse_cons, List.getElem?_append_left below, entry]

/-- The entry at the position is that of `s`. -/
theorem Consuming.here (h : Consuming q s r) {j : Fin taskQueueLength} (atEntry : q.queuePosition.toNat = j) :
    q.taskIndexQueue j = slotIndex s := by
  refine h.entries j s ?_
  rw [← atEntry, h.position, List.reverse_cons, List.getElem?_append_right (by simp)]
  simp

/-- A round that steps down. -/
theorem Unconsumed.advance (h : Unconsumed q (s :: r)) : Consuming q.advance s r := by
  have position := h.position
  have nonzero : q.queuePosition ≠ 0 := by
    rintro zero
    rw [zero] at position
    cases position
  rw [TaskQueue.advance, if_neg nonzero]
  refine ⟨?_, h.entries⟩
  simp only [List.length_cons] at position ⊢
  bv_omega

/-- A round that reschedules starts with the last task `prioritize_tasks` wrote. -/
theorem advance_consuming (zero : q.queuePosition = 0) (order : (prioritized q.tasks).reverse = s :: r) :
    Consuming q.advance s r := by
  have length : (prioritized q.tasks).length = r.length + 1 := by
    rw [← List.length_reverse, order, List.length_cons]
  have some : prioritized q.tasks ≠ [] := fun none => by simp [none] at length
  rw [TaskQueue.advance, if_pos zero]
  constructor
  · have down := prioritized_pred some
    simp only
    omega
  · intro j i entry
    rw [← order, List.reverse_reverse] at entry
    obtain ⟨below, rfl⟩ := List.getElem?_eq_some_iff.mp entry
    exact overwrite_entry q.taskIndexQueue (prioritized q.tasks) j below

end Queue

/-! ## One round -/

theorem savePrevious_queue (prev : Fin tasksMax) (os : Os) :
    (savePrevious prev os).kernel.schedule.queue.queuePosition = os.kernel.schedule.queue.queuePosition ∧
      (savePrevious prev os).kernel.schedule.queue.taskIndexQueue = os.kernel.schedule.queue.taskIndexQueue := by
  unfold savePrevious
  split <;> exact ⟨rfl, rfl⟩

/-- What an observed round saw. -/
theorem observedRound_ok {mem : DataMemory} {os os' : Os} {seen : Observation} {scheduler : Option (Fin tasksMax)}
    {prev : Fin tasksMax} (inv : RoundInv os.kernel scheduler prev)
    (h : observedRound .atmega2560 mem os = .ok (seen, os')) :
    ∃ entry next,
      Selection (savePrevious prev os).kernel.status (savePrevious prev os).kernel.schedule.queue.advance entry next ∧
      os' = (savePrevious prev os).selected next ∧
      seen = { rescheduled := decide (os.kernel.schedule.queue.queuePosition = 0)
               selected := slotIndex next
               statusWhenSelected := .ready } := by
  simp only [observedRound, bind_eq_ok] at h
  obtain ⟨prev', atPrev, saved, handled, ⟨index, selected⟩, chosen, slot, atSlot, after, round, last⟩ := h
  obtain rfl : prev' = prev := slotIndex_inj.mp ((eq_slotIndex_of_deref atPrev).symm.trans inv.active)
  obtain ⟨rfl, rfl⟩ := Prod.mk.inj (pure_eq_ok.mp last)
  obtain ⟨rfl, -⟩ := handlePreviousTask_ok handled
  obtain ⟨entry, next, selection, -, -, rfl⟩ := inv.round_ok round
  obtain ⟨entry', next', rfl, selection', rfl⟩ := inv.save.select chosen
  obtain rfl : entry = entry' := Fin.ext (selection.position.symm.trans selection'.position)
  obtain rfl : next = next' := slotIndex_inj.mp (selection.entry.symm.trans selection'.entry)
  obtain rfl : slot = next := slotIndex_inj.mp (eq_slotIndex_of_deref atSlot).symm
  have ready : ((savePrevious prev' os).kernel.schedule.queue.advance.tasks slot).status = .ready := by
    rw [advance_tasks]
    exact selection.ready
  refine ⟨entry, slot, selection, rfl, ?_⟩
  simp only [(savePrevious_queue prev' os).1, Kernel.tasks, withQueue_queue, ready]

/-- `set_priority` changes nothing the scheduler selects by before it reschedules. -/
theorem setPriorities_ok {priorities : List Byte} {k k' : Kernel} {scheduler running : Option (Fin tasksMax)}
    (inv : KernelInv k scheduler running)
    (h : priorities.foldlM (fun kernel priority => setPriority priority kernel) k = .ok k') :
    KernelInv k' scheduler running ∧ k'.schedule.activeTaskBlock = k.schedule.activeTaskBlock ∧
      k'.schedule.queue.queuePosition = k.schedule.queue.queuePosition ∧
      k'.schedule.queue.taskIndexQueue = k.schedule.queue.taskIndexQueue := by
  induction priorities generalizing k with
  | nil =>
    obtain rfl := pure_eq_ok.mp h
    exact ⟨inv, rfl, rfl, rfl⟩
  | cons priority priorities ih =>
    obtain ⟨t, first, rest⟩ := bind_eq_ok.mp h
    obtain ⟨slot, -, rfl⟩ := setPriority_ok first
    obtain ⟨kept, active, position, entries⟩ := ih (inv.modify slot rfl rfl) rest
    exact ⟨kept, active, position, entries⟩

/-- A turn: the round's observation, and the queue it leaves to the next round. -/
theorem takeTurn_ok {t : Turn} {os os' : Os} {before seen : List Observation} {scheduler : Option (Fin tasksMax)}
    {prev : Fin tasksMax} (inv : RoundInv os.kernel scheduler prev)
    (h : takeTurn .atmega2560 (os, before) t = .ok (os', seen)) :
    ∃ next, RoundInv os'.kernel scheduler next ∧
      seen = before ++ [{ rescheduled := decide (os.kernel.schedule.queue.queuePosition = 0)
                          selected := slotIndex next
                          statusWhenSelected := .ready }] ∧
      ∀ s r, Consuming (savePrevious prev os).kernel.schedule.queue.advance s r →
        next = s ∧ Unconsumed os'.kernel.schedule.queue r := by
  simp only [takeTurn, bind_eq_ok] at h
  obtain ⟨⟨observed, after⟩, round, kernel, set, last⟩ := h
  obtain ⟨rfl, rfl⟩ := Prod.mk.inj (pure_eq_ok.mp last)
  obtain ⟨entry, next, selection, rfl, rfl⟩ := observedRound_ok inv round
  obtain ⟨kept, active, position, entries⟩ := setPriorities_ok (inv.save.resumed selection) set
  refine ⟨next, ⟨active, .inl kept⟩, rfl, fun s r consuming => ?_⟩
  refine ⟨slotIndex_inj.mp (selection.entry.symm.trans (consuming.here selection.position)), ?_⟩
  exact ⟨position ▸ consuming.rest.position, fun j i atEntry => entries ▸ consuming.rest.entries j i atEntry⟩

/-! ## A whole cycle -/

/-- What the rounds of a cycle that selects the slots `order` are seen to do; `first` says whether
the first of them reschedules. The round after the cycle reschedules. -/
structure CycleSeen (first : Bool) (order : List (Fin tasksMax)) (seen : List Observation) : Prop where
  turn : ∀ (j : Nat) o, seen[j]? = some o → j < order.length → ∃ i, order[j]? = some i ∧
    o = { rescheduled := first && decide (j = 0), selected := slotIndex i, statusWhenSelected := .ready }
  next : ∀ o, seen[order.length]? = some o → o.rescheduled = true

theorem CycleSeen.cons {first : Bool} {s : Fin tasksMax} {order : List (Fin tasksMax)} {seen : List Observation}
    (rest : CycleSeen false order seen) : CycleSeen first (s :: order)
      ({ rescheduled := first, selected := slotIndex s, statusWhenSelected := .ready } :: seen) := by
  constructor
  · intro j o atTurn below
    cases j with
    | zero =>
      obtain rfl := Option.some.inj atTurn
      exact ⟨s, rfl, by simp⟩
    | succ j =>
      obtain ⟨i, entry, rfl⟩ := rest.turn j o atTurn (by simpa using below)
      exact ⟨i, entry, by simp⟩
  · intro o atTurn
    exact rest.next o atTurn

/-- Every run only adds observations. -/
theorem run_seen {turns : List Turn} {os os' : Os} {before seen : List Observation}
    (ran : Lib.run (takeTurn .atmega2560) (os, before) turns = .ok (os', seen)) :
    ∃ later, seen = before ++ later ∧ later.length = turns.length := by
  induction turns generalizing os before with
  | nil =>
    cases ran
    exact ⟨[], by simp, rfl⟩
  | cons t turns ih =>
    obtain ⟨⟨middle, seen'⟩, first, rest⟩ := Lib.run_cons_ok.mp ran
    simp only [takeTurn, bind_eq_ok] at first
    obtain ⟨⟨observed, after⟩, -, kernel, -, last⟩ := first
    obtain ⟨rfl, rfl⟩ := Prod.mk.inj (pure_eq_ok.mp last)
    obtain ⟨later, rfl, length⟩ := ih rest
    exact ⟨observed :: later, by simp, by simp [length]⟩

theorem Unconsumed.save {os : Os} {order : List (Fin tasksMax)} (queue : Unconsumed os.kernel.schedule.queue order)
    (prev : Fin tasksMax) : Unconsumed (savePrevious prev os).kernel.schedule.queue order := by
  obtain ⟨position, entries⟩ := savePrevious_queue prev os
  exact ⟨position ▸ queue.position, fun j i entry => entries ▸ queue.entries j i entry⟩

/-- The rounds after a reschedule select what is left of the queue, then reschedule. -/
theorem run_unconsumed {turns : List Turn} {order : List (Fin tasksMax)} {os os' : Os}
    {before seen : List Observation} {scheduler : Option (Fin tasksMax)} {prev : Fin tasksMax}
    (inv : RoundInv os.kernel scheduler prev) (queue : Unconsumed os.kernel.schedule.queue order)
    (ran : Lib.run (takeTurn .atmega2560) (os, before) turns = .ok (os', seen)) :
    ∃ later, seen = before ++ later ∧ later.length = turns.length ∧ CycleSeen false order later := by
  induction turns generalizing os before order prev with
  | nil =>
    cases ran
    exact ⟨[], by simp, rfl, ⟨nofun, nofun⟩⟩
  | cons t turns ih =>
    obtain ⟨⟨middle, seen'⟩, first, rest⟩ := Lib.run_cons_ok.mp ran
    obtain ⟨next, after, rfl, left⟩ := takeTurn_ok inv first
    have position := queue.position
    cases order with
    | nil =>
      -- the cycle is over: this round finds position 0
      have zero : os.kernel.schedule.queue.queuePosition = 0 := BitVec.eq_of_toNat_eq position
      obtain ⟨later, rfl, length⟩ := run_seen rest
      refine ⟨[_] ++ later, List.append_assoc _ _ _, by simp [length], ⟨nofun, fun o atTurn => ?_⟩⟩
      obtain rfl := Option.some.inj atTurn
      simp [zero]
    | cons s order =>
      have nonzero : os.kernel.schedule.queue.queuePosition ≠ 0 := fun zero => by
        rw [zero] at position
        cases position
      obtain ⟨rfl, remaining⟩ := left s order (queue.save prev).advance
      obtain ⟨later, rfl, length, cycle⟩ := ih after remaining rest
      refine ⟨[_] ++ later, List.append_assoc _ _ _, by simp [length], ?_⟩
      rw [decide_eq_false nonzero]
      exact cycle.cons

/-- The rounds from one that reschedules on. -/
theorem run_cycle {turns : List Turn} {os os' : Os} {seen : List Observation} {scheduler : Option (Fin tasksMax)}
    {prev : Fin tasksMax} (inv : RoundInv os.kernel scheduler prev) (zero : os.kernel.schedule.queue.queuePosition = 0)
    (ran : Lib.run (takeTurn .atmega2560) (os, []) turns = .ok (os', seen)) :
    seen.length = turns.length ∧
      CycleSeen true (prioritized (savePrevious prev os).kernel.tasks).reverse seen := by
  cases turns with
  | nil =>
    cases ran
    exact ⟨rfl, ⟨nofun, nofun⟩⟩
  | cons t turns =>
    obtain ⟨⟨middle, seen'⟩, first, rest⟩ := Lib.run_cons_ok.mp ran
    obtain ⟨next, after, rfl, left⟩ := takeTurn_ok inv first
    cases order : (prioritized (savePrevious prev os).kernel.tasks).reverse with
    | nil =>
      obtain ⟨later, rfl, length⟩ := run_seen rest
      refine ⟨by simp [length], ⟨nofun, fun o atTurn => ?_⟩⟩
      obtain rfl := Option.some.inj atTurn
      simp [zero]
    | cons s order' =>
      have saved := (savePrevious_queue prev os).1.trans zero
      obtain ⟨rfl, remaining⟩ := left s order' (advance_consuming saved order)
      obtain ⟨later, rfl, length, cycle⟩ := run_unconsumed after remaining rest
      refine ⟨by simp [length], ?_⟩
      rw [decide_eq_true zero]
      exact cycle.cons

/-- **Every queued task gets exactly one turn per cycle.** From a round that finds the queue at
position 0, the tasks `queued` by that round's reschedule are selected once each, READY when they
are, in descending order of priority and of index within one priority. Only the first of these
rounds reschedules, and the round after them does again. -/
theorem cycle_selects_each_queued_task_once {turns : List Turn} {os os' : Os} {seen : List Observation}
    {scheduler : Option (Fin tasksMax)} {prev : Fin tasksMax} (inv : RoundInv os.kernel scheduler prev)
    (zero : os.kernel.schedule.queue.queuePosition = 0)
    (ran : Lib.run (takeTurn .atmega2560) (os, []) turns = .ok (os', seen)) :
    ∃ (queued : List (Fin tasksMax)) (n : Byte) (list : IndexQueue),
      prioritizeTasks (savePrevious prev os).kernel.tasks os.kernel.schedule.queue.taskIndexQueue = .ok (n, list) ∧
      n.toNat = queued.length ∧
      (∀ (j : Fin taskQueueLength) i, queued[(j : Nat)]? = some i → list j = slotIndex i) ∧
      queued.Nodup ∧
      queued.reverse.Pairwise (fun i j => Before (savePrevious prev os).kernel.tasks j i) ∧
      seen.length = turns.length ∧
      CycleSeen true queued.reverse seen := by
  obtain ⟨length, cycle⟩ := run_cycle inv zero ran
  refine ⟨prioritized (savePrevious prev os).kernel.tasks, _, _, prioritizeTasks_eq _ _, prioritized_count _,
    fun j i entry => ?_, nodup_prioritized _, List.pairwise_reverse.mpr (sorted_prioritized _), length, cycle⟩
  obtain ⟨below, rfl⟩ := List.getElem?_eq_some_iff.mp entry
  exact overwrite_entry _ _ j below

/-- Two tasks take turns; the third round reschedules. -/
theorem cycle_selects_idle_and_spawned_once :
    ∃ os queued os' seen, boot .atmega2560 0x1FF0 0x5A0 bootSwitch = .ok os ∧
      os.step .atmega2560 (.spawn (some "task") 3 0x5A0) = .ok queued ∧
      Lib.run (takeTurn .atmega2560) (queued.contextSwtich 0xA00, [])
        [⟨bootMemory, 0x7DC, [7], 0xA00⟩, ⟨bootMemory, 0x7DC, [], 0x5A0⟩, ⟨bootMemory, 0x7DC, [], 0xA00⟩] = .ok (os', seen) ∧
      ∃ order : List (Fin tasksMax), order.Nodup ∧ seen.length = 3 ∧ CycleSeen true order.reverse seen := by
  have all : ∃ result, (boot .atmega2560 0x1FF0 0x5A0 bootSwitch >>= fun os =>
      os.step .atmega2560 (.spawn (some "task") 3 0x5A0) >>= fun queued =>
      fatalIf .atmega2560 (decide (queued.kernel.schedule.queue.queuePosition ≠ 0)) "" >>= fun _ =>
      Lib.run (takeTurn .atmega2560) (queued.contextSwtich 0xA00, [])
        [⟨bootMemory, 0x7DC, [7], 0xA00⟩, ⟨bootMemory, 0x7DC, [], 0x5A0⟩, ⟨bootMemory, 0x7DC, [], 0xA00⟩]) = .ok result :=
    Lib.ok_of_isOk (by decide +kernel)
  obtain ⟨⟨os', seen⟩, all⟩ := all
  simp only [bind_eq_ok, fatalIf_ok, decide_eq_false_iff_not, not_not] at all
  obtain ⟨os, booted, queued, spawn, ⟨⟩, zero, ran⟩ := all
  obtain ⟨scheduler, current, inv⟩ := boot_inv booted
  obtain ⟨new, after⟩ := inv.step spawn
  have atRound : RoundInv (queued.contextSwtich 0xA00).kernel (some scheduler) new := after.yielding
  obtain ⟨order, -, -, -, -, -, distinct, -, length, cycle⟩ := cycle_selects_each_queued_task_once atRound zero ran
  exact ⟨os, queued, os', seen, booted, spawn, ran, order, distinct, length, cycle⟩

end Simplos
