import Simplos.Kernel.Spec

/-!
# Creating a task, with and without an empty slot

`add_to_task_list` reports a full table with `FATAL_ERROR` and then returns 0, which is also the
index of a slot. Where `FATAL_ERROR` returns, `create_simplos_task` goes on and writes the status,
pid and name of the new task over those of the live task in slot 0.
-/

namespace Simplos
set_option autoImplicit false
open Lib (ok_bind error_bind)

/-- `slot` is the EMPTY slot of the lowest index. -/
structure LowestEmpty (tasks : TaskTable) (slot : Fin tasksMax) : Prop where
  empty : (tasks slot).status = .empty
  lowest : ∀ i, i < slot → (tasks i).status ≠ .empty

theorem firstEmpty_eq_some {tasks : TaskTable} {slot : Fin tasksMax} (h : firstEmpty tasks = some slot) :
    LowestEmpty tasks slot := by
  refine ⟨firstEmpty_some h, fun i below => ?_⟩
  obtain ⟨-, n, bound, rfl, earlier⟩ := List.find?_eq_some_iff_getElem.mp h
  have less := Fin.lt_def.mp below
  simpa using earlier i (by simpa using less)

theorem firstEmpty_eq_none {tasks : TaskTable} : firstEmpty tasks = none ↔ ∀ i, (tasks i).status ≠ .empty := by
  simp [firstEmpty, List.find?_eq_none]

theorem LowestEmpty.unique {tasks : TaskTable} {slot slot' : Fin tasksMax} (h : LowestEmpty tasks slot)
    (h' : LowestEmpty tasks slot') : slot = slot' := by
  rcases lt_trichotomy slot slot' with less | equal | greater
  · exact absurd h.empty (h'.lowest slot less)
  · exact equal
  · exact absurd h'.empty (h.lowest slot' greater)

theorem LowestEmpty.firstEmpty {tasks : TaskTable} {slot : Fin tasksMax} (h : LowestEmpty tasks slot) :
    firstEmpty tasks = some slot := by
  cases first : Simplos.firstEmpty tasks with
  | none => exact absurd h.empty (firstEmpty_eq_none.mp first slot)
  | some slot' => rw [(firstEmpty_eq_some first).unique h]

theorem exists_lowestEmpty {tasks : TaskTable} (some : ∃ i, (tasks i).status = .empty) :
    ∃ slot, LowestEmpty tasks slot := by
  cases first : firstEmpty tasks with
  | none =>
    obtain ⟨i, empty⟩ := some
    exact absurd empty (firstEmpty_eq_none.mp first i)
  | some slot => exact ⟨slot, firstEmpty_eq_some first⟩

/-! ## The two outcomes of a creation -/

section Create

variable (b : Build) (name : ProgmemString) (priority : Byte) (k : Kernel)

/-- The kernel after a creation in `slot`, whose memory block has its upper end at `high`. -/
def Kernel.created (slot : Fin tasksMax) (high : Word) : Kernel :=
  { k.modifyTask slot fun t => { t with
      priority := priority, status := .running, taskSpAdr := high, pid := k.pidCnt, name := name } with
    pidCnt := k.pidCnt + 1 }

theorem createSimplosTask_empty {slot : Fin tasksMax} (lowest : LowestEmpty k.tasks slot) :
    createSimplosTask b name priority k = taskSpRangeHigh b (k.tasks slot).taskMemoryBlock >>= fun high =>
      .ok (slotIndex slot, k.created name priority slot high) := by
  have first : firstEmpty k.schedule.queue.tasks = some slot := lowest.firstEmpty
  simp only [createSimplosTask, addToTaskList, first, bind_assoc, pure_bind, derefTask_slotIndex, ok_bind]
  refine bind_congr fun high => ?_
  -- the assignments of `add_to_task_list` and of its caller are to one slot
  have merged := modifyTask_modifyTask k slot
    (fun t => { t with priority := priority, status := .ready, taskSpAdr := high, pid := 0xFFFF })
    (fun t => { t with status := .running, pid := k.pidCnt, name := name })
  exact congrArg (fun k' : Kernel => Except.ok (slotIndex slot, { k' with pidCnt := k.pidCnt + 1 })) merged

/-- On the hardware a full table stops the creation before anything is written. -/
theorem createSimplosTask_full (full : ∀ i, (k.tasks i).status ≠ .empty) :
    createSimplosTask .atmega2560 name priority k =
      .error (.fatalError "Can't create new task! Queue if full!") := by
  have none : firstEmpty k.schedule.queue.tasks = none := firstEmpty_eq_none.mpr full
  simp only [createSimplosTask, addToTaskList, none, fatalError, error_bind]

/-- In the unit-test build it writes over the task in slot 0. -/
theorem createSimplosTask_full_mock (full : ∀ i, (k.tasks i).status ≠ .empty) :
    createSimplosTask .mockHal name priority k =
      .ok (0, { k.modifyTask 0 fun t => { t with status := .running, pid := k.pidCnt, name := name } with
        pidCnt := k.pidCnt + 1 }) := by
  have none : firstEmpty k.schedule.queue.tasks = none := firstEmpty_eq_none.mpr full
  simp only [createSimplosTask, addToTaskList, none, fatalError]
  rfl

end Create

theorem taskSpRangeHigh_mock (block : Byte) : ∃ high, taskSpRangeHigh .mockHal block = .ok high := by
  unfold taskSpRangeHigh taskSpRangeLow fatalIf
  split <;> exact ⟨_, rfl⟩

/-- On the hardware only the blocks that exist have bounds. -/
theorem taskSpRangeHigh_completes {block : Byte} :
    (∃ high, taskSpRangeHigh .atmega2560 block = .ok high) ↔ block.toNat < tasksMax := by
  unfold taskSpRangeHigh taskSpRangeLow fatalIf
  split
  · rename_i invalid
    have beyond := of_decide_eq_true invalid
    constructor
    · rintro ⟨high, returned⟩
      cases returned
    · omega
  · rename_i valid
    have inside : ¬ tasksMax ≤ block.toNat := fun beyond => valid (decide_eq_true beyond)
    constructor
    · intro _
      omega
    · intro _
      exact ⟨_, rfl⟩

/-! ## What a creation leaves alone -/

/-- A creation that disturbs no live task. With a slot EMPTY it returns the lowest such index and
changes that slot and `pid_cnt`; with none EMPTY it stops before its first write, or returns the
kernel it was given. -/
structure CreatesQuietly (b : Build) (name : ProgmemString) (priority : Byte) (k : Kernel) : Prop where
  takes : (∃ i, (k.tasks i).status = .empty) → ∃ slot task pidCnt, LowestEmpty k.tasks slot ∧
    createSimplosTask b name priority k =
      .ok (slotIndex slot, { k.modifyTask slot fun _ => task with pidCnt := pidCnt })
  refuses : (∀ i, (k.tasks i).status ≠ .empty) →
    createSimplosTask b name priority k = .error (.fatalError "Can't create new task! Queue if full!") ∨
      ∃ index, createSimplosTask b name priority k = .ok (index, k)

/-- There is an EMPTY slot, or `FATAL_ERROR` stops; and where it stops, the memory block of the slot
to be taken is one of the five. -/
structure CanCreate (b : Build) (k : Kernel) : Prop where
  room : b = .mockHal → ∃ i, (k.tasks i).status = .empty
  block : b = .atmega2560 → ∀ slot, LowestEmpty k.tasks slot → (k.tasks slot).taskMemoryBlock.toNat < tasksMax

theorem CanCreate.bounds {b : Build} {k : Kernel} (h : CanCreate b k) {slot : Fin tasksMax}
    (lowest : LowestEmpty k.tasks slot) : ∃ high, taskSpRangeHigh b (k.tasks slot).taskMemoryBlock = .ok high := by
  cases b with
  | atmega2560 => exact taskSpRangeHigh_completes.mpr (h.block rfl slot lowest)
  | mockHal => exact taskSpRangeHigh_mock _

theorem CanCreate.createsQuietly {b : Build} {k : Kernel} (h : CanCreate b k) (name : ProgmemString)
    (priority : Byte) : CreatesQuietly b name priority k := by
  constructor
  · intro some
    obtain ⟨slot, lowest⟩ := exists_lowestEmpty some
    obtain ⟨high, atHigh⟩ := h.bounds lowest
    let task : SimplosTask := { k.tasks slot with
      priority := priority, status := .running, taskSpAdr := high, pid := k.pidCnt, name := name }
    refine ⟨slot, task, k.pidCnt + 1, lowest, ?_⟩
    rw [createSimplosTask_empty b name priority k lowest, atHigh, ok_bind]
    rfl
  · intro full
    cases b with
    | atmega2560 => exact .inl (createSimplosTask_full name priority k full)
    | mockHal =>
      obtain ⟨i, empty⟩ := h.room rfl
      exact absurd empty (full i)

theorem CreatesQuietly.canCreate {b : Build} {k : Kernel} {name : ProgmemString} {priority : Byte}
    (h : CreatesQuietly b name priority k) : CanCreate b k := by
  constructor
  · rintro rfl
    by_contra none
    -- the counter moves on, so the kernel cannot be the one the creation was given
    have full : ∀ i, (k.tasks i).status ≠ .empty := fun i empty => none ⟨i, empty⟩
    have overwritten := createSimplosTask_full_mock name priority k full
    rcases h.refuses full with stopped | ⟨index, same⟩
    · rw [overwritten] at stopped
      cases stopped
    · rw [overwritten] at same
      have counter := congrArg Kernel.pidCnt (Prod.mk.inj (Except.ok.inj same)).2
      have moved : k.pidCnt + 1 ≠ k.pidCnt := by bv_omega
      exact moved counter
  · rintro rfl slot lowest
    obtain ⟨_, task, pidCnt, -, returned⟩ := h.takes ⟨slot, lowest.empty⟩
    rw [createSimplosTask_empty .atmega2560 name priority k lowest] at returned
    obtain ⟨high, atHigh, -⟩ := Lib.bind_eq_ok.mp returned
    exact taskSpRangeHigh_completes.mp ⟨high, atHigh⟩

/-- **A creation disturbs no live task exactly when there is a slot to take or `FATAL_ERROR` stops.** -/
theorem creates_quietly_iff (b : Build) (name : ProgmemString) (priority : Byte) (k : Kernel) :
    CreatesQuietly b name priority k ↔ CanCreate b k :=
  ⟨CreatesQuietly.canCreate, fun h => h.createsQuietly name priority⟩

/-- Five READY tasks, each in its own memory block. -/
def fullKernel : Kernel :=
  { schedule := { queue := { tasks := fun i =>
      { name := some "task", pid := BitVec.ofNat 16 i, taskMemoryBlock := slotIndex i, status := .ready } } }
    pidCnt := 5 }

/-- The unit-test build gives the sixth task slot 0: the task there loses its pid and its name. -/
theorem mock_creation_overwrites_task :
    (∃ k', createSimplosTask .mockHal (some "sixth") 3 fullKernel = .ok (0, k') ∧
      (k'.tasks 0).pid ≠ (fullKernel.tasks 0).pid ∧ (k'.tasks 0).name ≠ (fullKernel.tasks 0).name) ∧
    ¬ ∀ b name priority k, CreatesQuietly b name priority k := by
  refine ⟨⟨_, createSimplosTask_full_mock (some "sixth") 3 fullKernel (by decide), by decide, by decide⟩, ?_⟩
  intro always
  obtain ⟨i, empty⟩ := (always .mockHal (some "sixth") 3 fullKernel).canCreate.room rfl
  cases empty

end Simplos
