import Simplos.Kernel.Invariant

/-!
# Selecting tasks stays inside the queue

`select_next_task` indexes `task_index_queue` with the queue position and `tasks` with the entry it
finds there. Both are in range after any number of calls while a refill of the queue finds a task to
put in it, or stops where it finds none. In the unit-test build `FATAL_ERROR` returns, and
`num_active_tasks - 1` then wraps around to 255.
-/

namespace Simplos
set_option autoImplicit false
open Lib (Avoids bind_eq_ok ok_bind)

/-- `n` calls of `select_next_task` in a row. -/
def selectTasks (b : Build) : Nat → Os → Exec Os
  | 0, os => .ok os
  | n + 1, os => do
    let (_, os) ← selectNextTask b os
    selectTasks b n os

/-- The queue position and every entry of the queue are inside the arrays they index. -/
structure QueueBounded (q : TaskQueue) : Prop where
  position : q.queuePosition.toNat < taskQueueLength
  entry : ∀ j, (q.taskIndexQueue j).toNat < tasksMax

/-- A refill of the queue finds a task: one is READY with a priority that the outer loop of
`prioritize_tasks` reaches. -/
def Schedulable (tasks : TaskTable) : Prop := ∃ i, (tasks i).status = .ready ∧ (tasks i).priority ≠ 255

theorem prioritized_ne_nil_iff {tasks : TaskTable} : prioritized tasks ≠ [] ↔ Schedulable tasks := by
  rw [Ne, List.eq_nil_iff_forall_not_mem, not_forall_not]
  simp only [mem_prioritized, isReady, decide_eq_true_eq, Schedulable]

/-! ## One call -/

theorem overwrite_bounded {list : IndexQueue} (entry : ∀ j, (list j).toNat < tasksMax) (l : List (Fin tasksMax))
    (j : Fin taskQueueLength) : (overwrite list 0 l j).toNat < tasksMax := by
  by_cases inside : (j : Nat) < l.length
  · rw [overwrite_entry list l j inside, slotIndex_toNat]
    exact Fin.isLt _
  · rw [overwrite_tail list l j (Nat.le_of_not_lt inside)]
    exact entry j

/-- Away from position 0 the queue is stepped down by one. -/
theorem advance_down {q : TaskQueue} (position : q.queuePosition ≠ 0) :
    q.advance.queuePosition.toNat + 1 = q.queuePosition.toNat := by
  rw [TaskQueue.advance, if_neg position]
  bv_omega

/-- The queue stays in bounds when a refill, if one is due, finds a task. -/
theorem QueueBounded.advance {q : TaskQueue} (h : QueueBounded q)
    (supplied : q.queuePosition = 0 → Schedulable q.tasks) : QueueBounded q.advance := by
  by_cases zero : q.queuePosition = 0
  · rw [TaskQueue.advance, if_pos zero]
    -- the list is neither empty nor longer than the task table, so the subtraction does not wrap
    have last := prioritized_pred (prioritized_ne_nil_iff.mpr (supplied zero))
    have fits := prioritized_length_le q.tasks
    simp only [tasksMax] at fits
    constructor
    · simp only [taskQueueLength]
      omega
    · exact overwrite_bounded h.entry (prioritized q.tasks)
  · have down := advance_down zero
    have bound := h.position
    refine ⟨by omega, ?_⟩
    rw [TaskQueue.advance, if_neg zero]
    exact h.entry

/-- In the unit-test build a refill returns also when it finds no task. -/
theorem reschedule_mock (k : Kernel) : reschedule .mockHal k = .ok (k.withQueue
    { k.schedule.queue with
      taskIndexQueue := overwrite k.schedule.queue.taskIndexQueue 0 (prioritized k.tasks)
      queuePosition := BitVec.ofNat 8 (prioritized k.tasks).length - 1 }) := by
  simp only [reschedule, prioritizeTasks_eq, ok_bind, fatalIf, fatalError, ite_self]
  rfl

theorem moveQueuePosition_mock (k : Kernel) :
    moveQueuePosition .mockHal k = .ok (k.withQueue k.schedule.queue.advance) := by
  simp only [moveQueuePosition, TaskQueue.advance, reschedule_mock]
  split <;> rfl

/-- In either build the queue position that is used belongs to the advanced queue. -/
theorem moveQueuePosition_advances {b : Build} {k k' : Kernel} (h : moveQueuePosition b k = .ok k') :
    k' = k.withQueue k.schedule.queue.advance := by
  cases b with
  | atmega2560 => exact (moveQueuePosition_ok h).2
  | mockHal => exact (Except.ok.inj ((moveQueuePosition_mock k).symm.trans h)).symm

theorem moveQueuePosition_supplied {b : Build} {k k' : Kernel} (safe : b = .atmega2560 ∨ Schedulable k.tasks)
    (h : moveQueuePosition b k = .ok k') : k.schedule.queue.queuePosition = 0 → Schedulable k.tasks := by
  intro zero
  rcases safe with rfl | schedulable
  · exact prioritized_ne_nil_iff.mp ((moveQueuePosition_ok h).1 zero)
  · exact schedulable

/-- A kernel from which `select_next_task` may be called: its queue is in bounds, and a refill that
finds no task stops. -/
structure SelectSafe (b : Build) (k : Kernel) : Prop where
  queue : QueueBounded k.schedule.queue
  supply : b = .atmega2560 ∨ Schedulable k.tasks

theorem SelectSafe.advance {b : Build} {k k' : Kernel} (h : SelectSafe b k)
    (moved : moveQueuePosition b k = .ok k') : SelectSafe b k' := by
  have supplied := moveQueuePosition_supplied h.supply moved
  obtain rfl := moveQueuePosition_advances moved
  refine ⟨h.queue.advance supplied, ?_⟩
  rw [withQueue_tasks, advance_tasks]
  exact h.supply

theorem avoids_moveQueuePosition_outOfBounds (b : Build) (k : Kernel) :
    Avoids (· = .outOfBounds) (moveQueuePosition b k) := by
  cases b with
  | atmega2560 =>
    simp only [moveQueuePosition]
    split
    · simp only [reschedule, prioritizeTasks_eq, ok_bind]
      refine .bind ?_ fun _ _ => .ok _
      intro e failed
      unfold fatalIf fatalError at failed
      split at failed <;> cases failed
      simp
    · exact .ok _
  | mockHal =>
    rw [moveQueuePosition_mock]
    exact .ok _

/-- With the queue in bounds at the new position, a call completes. -/
theorem selectNextTask_completes {b : Build} {os : Os} {k : Kernel} (moved : moveQueuePosition b os.kernel = .ok k)
    (bounds : QueueBounded k.schedule.queue) :
    ∃ index os', selectNextTask b os = .ok (index, os') ∧ os'.kernel = k := by
  have slot : queueSlot k.schedule.queue.queuePosition = .ok ⟨_, bounds.position⟩ := queueSlot_ok.mpr rfl
  have task : derefTask (k.schedule.queue.taskIndexQueue ⟨_, bounds.position⟩) = .ok ⟨_, bounds.entry _⟩ :=
    derefTask_ok.mpr rfl
  simp only [selectNextTask, moved, ok_bind, slot, task]
  exact ⟨_, _, rfl, rfl⟩

theorem SelectSafe.avoids {b : Build} {os : Os} (h : SelectSafe b os.kernel) :
    Avoids (· = .outOfBounds) (selectNextTask b os) := by
  intro e failed
  cases moved : moveQueuePosition b os.kernel with
  | error e' =>
    simp only [selectNextTask, moved, Lib.error_bind] at failed
    cases failed
    exact avoids_moveQueuePosition_outOfBounds b os.kernel e moved
  | ok k =>
    obtain ⟨index, os', completed, -⟩ := selectNextTask_completes moved (h.advance moved).queue
    rw [completed] at failed
    cases failed

theorem SelectSafe.select {b : Build} {os os' : Os} {index : Byte} (h : SelectSafe b os.kernel)
    (selected : selectNextTask b os = .ok (index, os')) : SelectSafe b os'.kernel := by
  simp only [selectNextTask, bind_eq_ok] at selected
  obtain ⟨k, moved, slot, -, task, -, last⟩ := selected
  obtain ⟨-, rfl⟩ := Prod.mk.inj (pure_eq_ok.mp last)
  exact h.advance moved

/-! ## Any number of calls -/

theorem SelectSafe.avoids_selectTasks {b : Build} (n : Nat) {os : Os} (h : SelectSafe b os.kernel) :
    Avoids (· = .outOfBounds) (selectTasks b n os) := by
  induction n generalizing os with
  | zero => exact .ok os
  | succ n ih => exact .bind h.avoids fun ⟨_, _⟩ selected => ih (h.select selected)

/-- With nothing to schedule, the unit-test build steps down to position 0 and then off the queue. -/
theorem selectTasks_leaves_queue {os : Os} (n : Nat) (bounded : QueueBounded os.kernel.schedule.queue)
    (position : os.kernel.schedule.queue.queuePosition.toNat = n) (none : ¬ Schedulable os.kernel.tasks) :
    selectTasks .mockHal (n + 1) os = .error .outOfBounds := by
  induction n generalizing os with
  | zero =>
    have zero : os.kernel.schedule.queue.queuePosition = 0 := BitVec.eq_of_toNat_eq position
    have empty : prioritized os.kernel.schedule.queue.tasks = [] := not_not.mp (mt prioritized_ne_nil_iff.mp none)
    have off : queueSlot os.kernel.schedule.queue.advance.queuePosition = .error .outOfBounds := by
      rw [TaskQueue.advance, if_pos zero, empty]
      rfl
    simp only [selectTasks, selectNextTask, moveQueuePosition_mock, ok_bind, withQueue_queue, off, Lib.error_bind]
  | succ n ih =>
    have nonzero : os.kernel.schedule.queue.queuePosition ≠ 0 := fun zero => by simp [zero] at position
    have down := advance_down nonzero
    have advanced := bounded.advance fun zero => absurd zero nonzero
    obtain ⟨index, os', selected, kernel⟩ := selectNextTask_completes (moveQueuePosition_mock os.kernel) advanced
    rw [selectTasks, selected, ok_bind]
    apply ih
    · rw [kernel]
      exact advanced
    · rw [kernel]
      exact Nat.succ.inj (down.trans position)
    · rw [kernel, withQueue_tasks, advance_tasks]
      exact none

/-- What scheduling is to respect in a state: no access outside the two arrays in any number of calls
of `select_next_task`, and, when no task is READY, a `reschedule` that writes nothing to the queue and
leaves its position as it was. -/
structure SchedulesInside (b : Build) (os : Os) : Prop where
  inside : ∀ n, selectTasks b n os ≠ .error .outOfBounds
  unwritten : (∀ i, (os.kernel.tasks i).status ≠ .ready) →
    prioritizeTasks os.kernel.tasks os.kernel.schedule.queue.taskIndexQueue =
      .ok (0, os.kernel.schedule.queue.taskIndexQueue)
  unchanged : (∀ i, (os.kernel.tasks i).status ≠ .ready) → ∀ k, reschedule b os.kernel = .ok k →
    k.schedule.queue.taskIndexQueue = os.kernel.schedule.queue.taskIndexQueue ∧
      k.schedule.queue.queuePosition = os.kernel.schedule.queue.queuePosition

theorem prioritizeTasks_none {tasks : TaskTable} (none : ∀ i, (tasks i).status ≠ .ready) (list : IndexQueue) :
    prioritizeTasks tasks list = .ok (0, list) := by
  have empty : prioritized tasks = [] := by
    refine not_not.mp (mt prioritized_ne_nil_iff.mp ?_)
    rintro ⟨i, ready, -⟩
    exact none i ready
  rw [prioritizeTasks_eq, empty, overwrite_nil]
  rfl

/-- On the hardware a refill that finds no task does not return. -/
theorem reschedule_none {k k' : Kernel} (none : ∀ i, (k.tasks i).status ≠ .ready) :
    reschedule .atmega2560 k ≠ .ok k' := by
  intro returned
  simp only [reschedule, prioritizeTasks_none none, ok_bind, bind_eq_ok, fatalIf_ok] at returned
  obtain ⟨⟨⟩, some, -⟩ := returned
  simp at some

/-- **Scheduling stays inside the queue exactly when `FATAL_ERROR` stops or there is a task to
schedule.** -/
theorem schedules_inside_iff {b : Build} {os : Os} (bounded : QueueBounded os.kernel.schedule.queue) :
    SchedulesInside b os ↔ b = .atmega2560 ∨ Schedulable os.kernel.tasks := by
  constructor
  · intro h
    cases b with
    | atmega2560 => exact .inl rfl
    | mockHal =>
      by_contra none
      exact h.inside _ (selectTasks_leaves_queue _ bounded rfl fun some => none (.inr some))
  · intro supply
    have safe : SelectSafe b os.kernel := ⟨bounded, supply⟩
    refine ⟨fun n stopped => safe.avoids_selectTasks n _ stopped rfl, fun none => prioritizeTasks_none none _, ?_⟩
    intro none k returned
    rcases supply with rfl | ⟨i, ready, -⟩
    · exact absurd returned (reschedule_none none)
    · exact absurd ready (none i)

/-- One READY task, next to whatever the other slots hold, is enough. -/
theorem schedules_inside_with_one_ready :
    SchedulesInside .mockHal { kernel := { schedule := { queue := { tasks := fun i =>
      { status := if i = 2 then .ready else .empty } } } } } :=
  (schedules_inside_iff ⟨by decide, by decide⟩).mpr (.inr ⟨2, rfl, by decide⟩)

/-- The unit-test build with an empty task table: the first call indexes the queue at 255. -/
theorem mock_selects_outside_queue :
    ¬ ∀ (b : Build) (os : Os), QueueBounded os.kernel.schedule.queue → SchedulesInside b os := by
  intro always
  have h := always .mockHal {} ⟨by decide, by decide⟩
  exact h.inside 1 (selectTasks_leaves_queue 0 ⟨by decide, by decide⟩ rfl (by rintro ⟨i, ready, -⟩; cases ready))

end Simplos
