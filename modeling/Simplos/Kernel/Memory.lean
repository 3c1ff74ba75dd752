import Simplos.Lib.Runs
import Simplos.Kernel.Types

/-!
# `memory.cpp`

The bounds of each task's stack block, the classification of an address into a memory region, and
the check the scheduler makes on a saved stack pointer.
-/

namespace Simplos
set_option autoImplicit false

/-- The bytes a context switch pushes: PC, registers and SREG. -/
def numContextSwitchOverheadBytes : Word := 3 + 32 + 1

def inRegion (address regionStart regionEnd : Word) : Bool :=
  decide (regionEnd ≤ address) && decide (address ≤ regionStart)

/-- The first byte of `taskMemoryBlock`. -/
def taskSpRangeLow (b : Build) (taskMemoryBlock : Byte) : Exec Word := do
  fatalIf b (decide (tasksMax ≤ taskMemoryBlock.toNat)) "Invalid memory block"
  return taskRamEnd + taskMemorySize * taskMemoryBlock.setWidth 16

def taskSpRangeHigh (b : Build) (taskMemoryBlock : Byte) : Exec Word := do
  return (← taskSpRangeLow b taskMemoryBlock) + (taskMemorySize - 1)

/-- The bounds of a slot's own block. -/
def blockLow (slot : Fin tasksMax) : Word := taskRamEnd + taskMemorySize * (slotIndex slot).setWidth 16
def blockHigh (slot : Fin tasksMax) : Word := blockLow slot + (taskMemorySize - 1)

theorem blockLow_ne_zero : ∀ slot, blockLow slot ≠ 0 := by decide

theorem taskSpRangeLow_slot (b : Build) (slot : Fin tasksMax) :
    taskSpRangeLow b (slotIndex slot) = .ok (blockLow slot) := by
  have bound : ¬ tasksMax ≤ (slotIndex slot).toNat := by
    rw [slotIndex_toNat]
    exact Nat.not_le.mpr slot.isLt
  rw [taskSpRangeLow, decide_eq_false bound]
  rfl

theorem taskSpRangeHigh_slot (b : Build) (slot : Fin tasksMax) :
    taskSpRangeHigh b (slotIndex slot) = .ok (blockHigh slot) := by
  simp [taskSpRangeHigh, taskSpRangeLow_slot, blockHigh, pure, Except.pure]

inductive MemRegion where
  | registers
  | registersCanary
  | osStack
  | taskRam
  | heap
  | init
  | unknown
deriving DecidableEq

def memoryRegion (task : SimplosTask) (kernel : Kernel) : MemRegion :=
  let sp := task.taskSpAdr
  if inRegion sp registersStart 0 then .registers
  else if inRegion sp canaryStart canaryEnd then .registersCanary
  else if inRegion sp osStackStart osStackEnd then .osStack
  else if inRegion sp taskRamStart taskRamEnd then .taskRam
  else if inRegion sp kernel.heapStart heapEnd then .heap
  else if inRegion sp ramEnd (kernel.heapStart + 1) then .init
  else .unknown

def memAdrBelongsToTask (adr : Word) (taskMemoryBlock : Byte) (kernel : Kernel) : Exec Bool := do
  let taskStackRange := kernel.taskRamRanges (← derefTask taskMemoryBlock)
  return decide (taskStackRange.low ≤ adr) && decide (adr ≤ taskStackRange.high)

/-- `read_mm`; the unit-test build has a placeholder instead of memory. -/
def readMm (b : Build) (mem : DataMemory) (adr : Word) : Byte :=
  match b with
  | .atmega2560 => mem adr
  | .mockHal => 0xFF

/-- `write_mm`; the unit-test build has no memory to write to. -/
def writeMm (b : Build) (mem : DataMemory) (adr : Word) (value : Byte) : DataMemory :=
  match b with
  | .atmega2560 => Function.update mem adr value
  | .mockHal => mem

/-- The addresses of the canary bytes as `init_memory` goes through them. -/
def canaryAdrs : List Word :=
  (List.range (canaryStart.toNat - canaryEnd.toNat + 1)).map fun i => canaryStart - BitVec.ofNat 16 i

/-- The canary bytes are written, and read back one by one. -/
def initMemory (b : Build) (mem : DataMemory) : Exec DataMemory := do
  let written := canaryAdrs.foldl (fun mem canaryAdr => writeMm b mem canaryAdr canaryValue) mem
  [(0x204 : Word), 0x203, 0x202, 0x201].forM fun adr =>
    assert b (readMm b written adr == canaryValue) "Failed to write canary between registers and stack!"
  assert b (readMm b written 0x200 == canaryValue) "Failed to write register os stack canary!"
  return written

/-- The canary bytes between the registers and the OS stack, from `canary_start` down. -/
def verifyCanaries (b : Build) (mem : DataMemory) : Exec Unit :=
  (List.range (canaryStart.toNat - canaryEnd.toNat + 1)).forM fun i =>
    assert b (readMm b mem (canaryStart - BitVec.ofNat 16 i) == canaryValue)
      "Canary has been changed! The OS stack has likely overflown\n"

def assertTaskPointerIntegrity (b : Build) (mem : DataMemory) (task : SimplosTask) (kernel : Kernel) :
    Exec Unit := do
  assert b (memoryRegion task kernel == .taskRam) "MEMORY ERROR! Task pointer outside task pointer region!"
  assert b (← memAdrBelongsToTask task.taskSpAdr task.taskMemoryBlock kernel)
    "TASK MEMORY ERROR! Saved stack pointer is outside allowed range for task\n."
  let futureTaskSpAdrWithSavedRegisters := task.taskSpAdr - numContextSwitchOverheadBytes
  assert b (← memAdrBelongsToTask futureTaskSpAdrWithSavedRegisters task.taskMemoryBlock kernel)
    "(Future) TASK MEMORY ERROR! Future stack pointer, with saved registers is outside allowed range for task\n."
  verifyCanaries b mem
  let upperBound ← taskSpRangeHigh b task.taskMemoryBlock
  let lowerBound ← taskSpRangeLow b task.taskMemoryBlock
  let spOutsideBounds := decide (task.taskSpAdr < lowerBound) || decide (task.taskSpAdr > upperBound)
  fatalIf b spOutsideBounds "Stack overflow!"

/-- A stack pointer that passes the check lies in the block of its task. -/
theorem assertTaskPointerIntegrity_bounds {mem : DataMemory} {task : SimplosTask} {kernel : Kernel}
    {slot : Fin tasksMax} {u : Unit} (block : task.taskMemoryBlock = slotIndex slot)
    (passed : assertTaskPointerIntegrity .atmega2560 mem task kernel = .ok u) :
    blockLow slot ≤ task.taskSpAdr ∧ task.taskSpAdr ≤ blockHigh slot := by
  unfold assertTaskPointerIntegrity at passed
  simp only [block, taskSpRangeHigh_slot, taskSpRangeLow_slot, Lib.bind_eq_ok, Lib.ok_bind, fatalIf_ok] at passed
  obtain ⟨-, -, -, -, -, -, -, -, -, -, -, -, inside⟩ := passed
  simpa only [Bool.or_eq_false_iff, decide_eq_false_iff_not, BitVec.not_lt, gt_iff_lt] using inside

end Simplos
