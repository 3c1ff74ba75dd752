import Mathlib

/-!
# Kernel data

`memory_layout.hpp` and `simplos_types.hpp`, and the two ways the code stops. Integers are bit
vectors of the width they have on the ATmega2560 (`size_t`, `uintptr_t` and pointers are 16 bits
wide there). An array of fixed size is a function from its index type; indexing it with an
integer goes through `derefTask` and `queueSlot`, which fail outside the array.
-/

namespace Simplos
set_option autoImplicit false

abbrev Byte := BitVec 8
abbrev Word := BitVec 16

/-- Data memory as the C++ code reads it through a pointer. -/
abbrev DataMemory := Word → Byte

/-! ## `memory_layout.hpp` -/

abbrev tasksMax : Nat := 5
abbrev taskQueueLength : Nat := 6
instance neZero_tasksMax : NeZero tasksMax := ⟨by decide⟩

def registersStart : Word := 0x1FF
def canaryStart : Word := 0x204
def canaryEnd : Word := 0x200
def canaryValue : Byte := 0x66
def osStackStart : Word := 0x3FF
def osStackEnd : Word := 0x205
def taskRamEnd : Word := 0x350
def taskRamStart : Word := 0xFFF
def taskMemorySize : Word := (taskRamStart - taskRamEnd) / BitVec.ofNat 16 tasksMax
def heapEnd : Word := taskRamStart + 1

/-- The last SRAM address of the ATmega2560 (`RAMEND`). -/
def ramEnd : Word := 0x21FF

structure MemorySpan where
  low : Word := 0
  high : Word := 0
deriving DecidableEq

/-! ## Stopping

`FATAL_ERROR` and a failed `ASSERT` end in `halt_exec`, which never returns on the ATmega2560.
In the unit-test build (`MOCK_HAL`) `FATAL_ERROR` only adds an entry to the test log and
`halt_exec` only sets a flag, so both return to the caller. -/

/-- Which hardware abstraction layer the code is compiled against. -/
inductive Build where
  | atmega2560
  | mockHal
deriving DecidableEq

/-- Why execution stopped. `outOfBounds` is an access outside an array, which the code never
checks for and whose effect C++ leaves undefined. -/
inductive Halt where
  | fatalError (message : String)
  | assertion (message : String)
  | outOfBounds
deriving DecidableEq

/-- A computation of the kernel that may stop. -/
abbrev Exec (α : Type) := Except Halt α

/-- `FATAL_ERROR(message)`. -/
def fatalError (b : Build) (message : String) : Exec Unit :=
  match b with
  | .atmega2560 => .error (.fatalError message)
  | .mockHal => .ok ()

/-- `ASSERT(cond, message)`, and `ASSERT_EQ` with the comparison as `cond`. -/
def assert (b : Build) (cond : Bool) (message : String) : Exec Unit :=
  match cond, b with
  | true, _ => .ok ()
  | false, .atmega2560 => .error (.assertion message)
  | false, .mockHal => .ok ()

/-- `if (cond) { FATAL_ERROR(message); }` -/
def fatalIf (b : Build) (cond : Bool) (message : String) : Exec Unit :=
  if cond then fatalError b message else .ok ()

/-- On the hardware a fatal error is passed only when its condition does not hold. -/
theorem fatalIf_ok {cond : Bool} {message : String} {u : Unit} :
    fatalIf .atmega2560 cond message = .ok u ↔ cond = false := by
  cases cond <;> simp [fatalIf, fatalError]

/-- On the hardware an assertion is passed only when it holds. -/
theorem assert_ok {cond : Bool} {message : String} {u : Unit} :
    assert .atmega2560 cond message = .ok u ↔ cond = true := by
  cases cond <;> simp [assert]

/-! ## `simplos_types.hpp` -/

inductive TaskStatus where
  | sleeping
  | ready
  | running
  | empty
  | scheduler
deriving DecidableEq

/-- A string in program memory; `none` is the null pointer a default-constructed one holds. -/
abbrev ProgmemString := Option String

/-- The initial values are those of the default constructor. -/
structure SimplosTask where
  timeCounter : BitVec 32 := 0
  name : ProgmemString := none
  taskSpAdr : Word := 0
  pid : Word := 0
  taskMemoryBlock : Byte := 0
  priority : Byte := 0
  status : TaskStatus := .empty
deriving DecidableEq

abbrev TaskTable := Fin tasksMax → SimplosTask
abbrev IndexQueue := Fin taskQueueLength → Byte

structure TaskQueue where
  tasks : TaskTable := fun _ => {}
  taskIndexQueue : IndexQueue := fun _ => 0
  queuePosition : Byte := 0

structure Scheduler where
  queue : TaskQueue := {}
  osTaskSp : Word := 0
  activeTaskBlock : Byte := 0
  taskScheduled : Byte := 0

structure Kernel where
  schedule : Scheduler := {}
  taskRamRanges : Fin tasksMax → MemorySpan := fun _ => {}
  csTimeCounter : BitVec 32 := 0
  endedTaskTimeCounter : BitVec 32 := 0
  heapStart : Word := 0
  pidCnt : Word := 0

/-- The reference `tasks[i]`. -/
def derefTask (i : Byte) : Exec (Fin tasksMax) :=
  if bound : i.toNat < tasksMax then .ok ⟨i.toNat, bound⟩ else .error .outOfBounds

/-- The reference `task_index_queue[i]`. -/
def queueSlot (i : Byte) : Exec (Fin taskQueueLength) :=
  if bound : i.toNat < taskQueueLength then .ok ⟨i.toNat, bound⟩ else .error .outOfBounds

theorem derefTask_ok {i : Byte} {slot : Fin tasksMax} : derefTask i = .ok slot ↔ i.toNat = slot := by
  unfold derefTask
  split <;> simp only [Except.ok.injEq, reduceCtorEq, Fin.ext_iff, false_iff]
  omega

theorem queueSlot_ok {i : Byte} {slot : Fin taskQueueLength} : queueSlot i = .ok slot ↔ i.toNat = slot := by
  unfold queueSlot
  split <;> simp only [Except.ok.injEq, reduceCtorEq, Fin.ext_iff, false_iff]
  omega

theorem slot_lt (slot : Fin tasksMax) : (slot : Nat) < 5 := slot.isLt

/-- The index of a slot as the code stores it. -/
def slotIndex (slot : Fin tasksMax) : Byte := BitVec.ofNat 8 slot

@[simp] theorem slotIndex_toNat (slot : Fin tasksMax) : (slotIndex slot).toNat = slot := by
  have bound := slot_lt slot
  simp only [slotIndex, BitVec.toNat_ofNat]
  omega

theorem slotIndex_inj {i j : Fin tasksMax} : slotIndex i = slotIndex j ↔ i = j := by
  rw [← BitVec.toNat_inj, slotIndex_toNat, slotIndex_toNat, Fin.ext_iff]

@[simp] theorem derefTask_slotIndex (slot : Fin tasksMax) : derefTask (slotIndex slot) = .ok slot :=
  derefTask_ok.mpr (slotIndex_toNat slot)

/-! ## Writing one slot of the task table -/

/-- Assign fields of `tasks[slot]`. -/
def TaskQueue.modifyTask (q : TaskQueue) (slot : Fin tasksMax) (f : SimplosTask → SimplosTask) : TaskQueue :=
  { q with tasks := Function.update q.tasks slot (f (q.tasks slot)) }

/-- The task table of a kernel. -/
abbrev Kernel.tasks (k : Kernel) : TaskTable := k.schedule.queue.tasks

def Kernel.withQueue (k : Kernel) (q : TaskQueue) : Kernel :=
  { k with schedule := { k.schedule with queue := q } }

def Kernel.modifyTask (k : Kernel) (slot : Fin tasksMax) (f : SimplosTask → SimplosTask) : Kernel :=
  k.withQueue (k.schedule.queue.modifyTask slot f)

section ModifyTask

variable (k : Kernel) (q : TaskQueue) (slot i : Fin tasksMax) (f : SimplosTask → SimplosTask)

theorem modifyTask_apply :
    (k.modifyTask slot f).tasks i = if i = slot then f (k.tasks slot) else k.tasks i :=
  Function.update_apply ..

@[simp] theorem modifyTask_self : (k.modifyTask slot f).tasks slot = f (k.tasks slot) :=
  Function.update_self ..

theorem modifyTask_of_ne {i : Fin tasksMax} (ne : i ≠ slot) : (k.modifyTask slot f).tasks i = k.tasks i :=
  Function.update_of_ne ne ..

@[simp] theorem modifyTask_taskIndexQueue :
    (k.modifyTask slot f).schedule.queue.taskIndexQueue = k.schedule.queue.taskIndexQueue := rfl
@[simp] theorem modifyTask_queuePosition :
    (k.modifyTask slot f).schedule.queue.queuePosition = k.schedule.queue.queuePosition := rfl
@[simp] theorem modifyTask_activeTaskBlock :
    (k.modifyTask slot f).schedule.activeTaskBlock = k.schedule.activeTaskBlock := rfl
@[simp] theorem modifyTask_taskRamRanges : (k.modifyTask slot f).taskRamRanges = k.taskRamRanges := rfl
@[simp] theorem modifyTask_pidCnt : (k.modifyTask slot f).pidCnt = k.pidCnt := rfl

@[simp] theorem withQueue_queue : (k.withQueue q).schedule.queue = q := rfl
theorem withQueue_tasks : (k.withQueue q).tasks = q.tasks := rfl
@[simp] theorem withQueue_activeTaskBlock :
    (k.withQueue q).schedule.activeTaskBlock = k.schedule.activeTaskBlock := rfl
@[simp] theorem withQueue_taskRamRanges : (k.withQueue q).taskRamRanges = k.taskRamRanges := rfl
@[simp] theorem withQueue_pidCnt : (k.withQueue q).pidCnt = k.pidCnt := rfl

end ModifyTask

end Simplos
