import Simplos.Kernel.Spec

/-!
# What the check of a stack pointer accepts

`assert_task_pointer_integrity` classifies the stack pointer by region, compares it and the stack pointer
after one more switch with the recorded range of the block, and compares it with the bounds of the block again.
The regions are tried in turn and overlap: the first block begins inside the range of the OS stack.
-/

namespace Simplos
set_option autoImplicit false
open Lib

/-! ## The parts of the check -/

/-- The bytes between the registers and the OS stack are as `init_memory` left them. -/
def CanariesIntact (mem : DataMemory) : Prop := ∀ a, canaryEnd ≤ a → a ≤ canaryStart → mem a = canaryValue

theorem verifyCanaries_ok {mem : DataMemory} (intact : CanariesIntact mem) :
    verifyCanaries .atmega2560 mem = .ok () := by
  apply forM_ok
  intro i member
  have bound : i < 5 := List.mem_range.mp member
  have low : canaryEnd ≤ canaryStart - BitVec.ofNat 16 i := by
    unfold canaryEnd canaryStart
    bv_omega
  have high : canaryStart - BitVec.ofNat 16 i ≤ canaryStart := by
    unfold canaryStart
    bv_omega
  rw [assert_ok, readMm, intact _ low high]
  rfl

theorem mem_canaryAdrs {a : Word} : a ∈ canaryAdrs ↔ canaryEnd ≤ a ∧ a ≤ canaryStart := by
  have five : canaryAdrs = [0x204, 0x203, 0x202, 0x201, 0x200] := by decide
  unfold canaryEnd canaryStart
  simp only [five, List.mem_cons, List.not_mem_nil, or_false]
  constructor
  · intro among
    bv_omega
  · rintro ⟨low, high⟩
    bv_omega

theorem writeMm_all (adrs : List Word) (value : Byte) (mem : DataMemory) (a : Word) :
    adrs.foldl (fun mem adr => writeMm .atmega2560 mem adr value) mem a = if a ∈ adrs then value else mem a := by
  induction adrs generalizing mem with
  | nil => rfl
  | cons adr adrs ih =>
    rw [List.foldl_cons, ih, writeMm, Function.update_apply]
    by_cases later : a ∈ adrs
    · rw [if_pos later, if_pos (List.mem_cons_of_mem adr later)]
    · simp only [List.mem_cons, later, or_false, if_false]

theorem CanariesIntact.read {mem : DataMemory} (intact : CanariesIntact mem) {adr : Word} (message : String)
    (inside : adr ∈ canaryAdrs) : assert .atmega2560 (readMm .atmega2560 mem adr == canaryValue) message = .ok () := by
  obtain ⟨low, high⟩ := mem_canaryAdrs.mp inside
  rw [assert_ok, readMm, intact adr low high]
  rfl

/-- `init_memory` goes through, writes the canaries and nothing else. -/
theorem initMemory_ok (mem : DataMemory) : ∃ written, initMemory .atmega2560 mem = .ok written ∧
    CanariesIntact written ∧ ∀ a, ¬ (canaryEnd ≤ a ∧ a ≤ canaryStart) → written a = mem a := by
  have values := writeMm_all canaryAdrs canaryValue mem
  have intact : CanariesIntact _ := fun a low high => (values a).trans (if_pos (mem_canaryAdrs.mpr ⟨low, high⟩))
  refine ⟨_, ?_, intact, fun a outside => (values a).trans (if_neg (mt mem_canaryAdrs.mp outside))⟩
  have last : (0x200 : Word) ∈ canaryAdrs := mem_canaryAdrs.mpr ⟨by decide, by decide⟩
  simp only [initMemory, bind_eq_ok, pure_eq_ok]
  refine ⟨⟨⟩, ?_, ⟨⟩, intact.read _ last, trivial⟩
  apply forM_ok
  intro adr member
  refine intact.read _ (mem_canaryAdrs.mpr ?_)
  unfold canaryEnd canaryStart
  simp only [List.mem_cons, List.not_mem_nil, or_false] at member
  bv_omega

/-- The task region is what the OS stack leaves of it. -/
theorem memoryRegion_taskRam {task : SimplosTask} {kernel : Kernel} :
    memoryRegion task kernel = .taskRam ↔ osStackStart < task.taskSpAdr ∧ task.taskSpAdr ≤ taskRamStart := by
  unfold memoryRegion inRegion registersStart canaryStart canaryEnd osStackStart osStackEnd taskRamStart taskRamEnd
  simp only [Bool.and_eq_true, decide_eq_true_eq]
  constructor
  · intro region
    split at region
    · cases region
    · split at region
      · cases region
      · split at region
        · cases region
        · split at region
          · bv_omega
          · split at region <;> try split at region
            all_goals cases region
  · rintro ⟨above, below⟩
    rw [if_neg (by bv_omega), if_neg (by bv_omega), if_neg (by bv_omega), if_pos (by bv_omega)]

/-- Every block lies in the task region and takes more than the bytes of one switch. -/
theorem block_bounds (slot : Fin tasksMax) :
    taskRamEnd ≤ blockLow slot ∧ blockHigh slot = blockLow slot + 0x288 ∧ blockLow slot ≤ blockHigh slot ∧
      blockHigh slot ≤ taskRamStart := by
  revert slot
  decide

theorem blockHigh_above_osStack : ∀ slot, osStackStart ≤ blockHigh slot := by decide

/-- **What the check accepts**: the block less the bytes of one switch, less what the OS stack takes of it. -/
theorem assertTaskPointerIntegrity_ok {mem : DataMemory} {task : SimplosTask} {kernel : Kernel} {slot : Fin tasksMax}
    (block : task.taskMemoryBlock = slotIndex slot)
    (range : kernel.taskRamRanges slot = { low := blockLow slot, high := blockHigh slot }) :
    assertTaskPointerIntegrity .atmega2560 mem task kernel = .ok () ↔
      (blockLow slot + numContextSwitchOverheadBytes ≤ task.taskSpAdr ∧ task.taskSpAdr ≤ blockHigh slot) ∧
        osStackStart < task.taskSpAdr ∧ verifyCanaries .atmega2560 mem = .ok () := by
  obtain ⟨low, high, order, top⟩ := block_bounds slot
  have belongs : ∀ adr, memAdrBelongsToTask adr (slotIndex slot) kernel =
      .ok (decide (blockLow slot ≤ adr) && decide (adr ≤ blockHigh slot)) := by
    intro adr
    rw [memAdrBelongsToTask, derefTask_slotIndex, ok_bind, range]
    rfl
  unfold assertTaskPointerIntegrity
  simp only [block, belongs, taskSpRangeHigh_slot, taskSpRangeLow_slot, bind_eq_ok, ok_bind, fatalIf_ok, assert_ok,
    beq_iff_eq, memoryRegion_taskRam, Bool.and_eq_true, Bool.or_eq_false_iff, decide_eq_true_eq, decide_eq_false_iff_not]
  unfold numContextSwitchOverheadBytes
  unfold taskRamEnd at low
  unfold taskRamStart at top ⊢
  constructor
  · rintro ⟨-, ⟨above, -⟩, -, ⟨first, second⟩, -, ⟨third, fourth⟩, u, canaries, -⟩
    exact ⟨⟨by bv_omega, second⟩, above, canaries⟩
  · rintro ⟨⟨first, second⟩, above, canaries⟩
    exact ⟨(), ⟨above, by bv_omega⟩, (), ⟨by bv_omega, second⟩, (), ⟨by bv_omega, by bv_omega⟩, (), canaries,
      by bv_omega, by bv_omega⟩

/-! ## A kernel that was set up -/

theorem setUp_ranges {b : Build} {k₀ k₁ : Kernel} (setUp : initKernel b k₀ = .ok k₁) (slot : Fin tasksMax) :
    k₁.taskRamRanges slot = { low := blockLow slot, high := blockHigh slot } := by
  rw [initKernel_eq] at setUp
  cases setUp
  rfl

theorem setUp_blocks {b : Build} {k₁ k₂ : Kernel} (setUp : initSchedule b k₁ = .ok k₂) (slot : Fin tasksMax) :
    (k₂.tasks slot).taskMemoryBlock = slotIndex slot ∧ k₂.taskRamRanges = k₁.taskRamRanges := by
  rw [initSchedule, initTaskList_eq, ok_bind] at setUp
  cases setUp
  exact ⟨rfl, rfl⟩

/-- The kernel with the stack pointer `sp` saved in `slot` and the heap at `heapStart`. -/
def Kernel.withSavedSp (kernel : Kernel) (slot : Fin tasksMax) (sp heapStart : Word) : Kernel :=
  { kernel.modifyTask slot fun t => { t with taskSpAdr := sp } with heapStart := heapStart }

theorem withSavedSp_task (kernel : Kernel) (slot : Fin tasksMax) (sp heapStart : Word) :
    (kernel.withSavedSp slot sp heapStart).tasks slot = { kernel.tasks slot with taskSpAdr := sp } :=
  modifyTask_self kernel slot _

/-- **The check has no misses, and false alarms exactly inside the OS stack's range.** With the canaries intact it accepts
the stack pointers from which a switch stays in the block, except those the regions give to the OS stack. -/
theorem stack_check_exact {k₀ k₁ k₂ : Kernel} (kernelSetUp : initKernel .atmega2560 k₀ = .ok k₁)
    (scheduleSetUp : initSchedule .atmega2560 k₁ = .ok k₂) (heapStart : Word) (slot : Fin tasksMax) (sp : Word)
    {low high : Word} (spRangeLow : taskSpRangeLow .atmega2560 (slotIndex slot) = .ok low)
    (spRangeHigh : taskSpRangeHigh .atmega2560 (slotIndex slot) = .ok high) {mem : DataMemory}
    (canaries : CanariesIntact mem) :
    (assertTaskPointerIntegrity .atmega2560 mem ((k₂.withSavedSp slot sp heapStart).tasks slot)
          (k₂.withSavedSp slot sp heapStart) = .ok () ↔
        low + numContextSwitchOverheadBytes ≤ sp ∧ sp ≤ high) ↔
      ¬ (low + numContextSwitchOverheadBytes ≤ sp ∧ sp ≤ osStackStart) := by
  obtain ⟨block, same⟩ := setUp_blocks scheduleSetUp slot
  have range : (k₂.withSavedSp slot sp heapStart).taskRamRanges slot = { low := blockLow slot, high := blockHigh slot } :=
    (congrFun same slot).trans (setUp_ranges kernelSetUp slot)
  have task := withSavedSp_task k₂ slot sp heapStart
  have accepts : assertTaskPointerIntegrity .atmega2560 mem ((k₂.withSavedSp slot sp heapStart).tasks slot)
      (k₂.withSavedSp slot sp heapStart) = .ok () ↔ _ :=
    assertTaskPointerIntegrity_ok (by rw [task]; exact block) range
  obtain rfl := Except.ok.inj ((taskSpRangeLow_slot _ slot).symm.trans spRangeLow)
  obtain rfl := Except.ok.inj ((taskSpRangeHigh_slot _ slot).symm.trans spRangeHigh)
  rw [accepts, task]
  have beyond := blockHigh_above_osStack slot
  constructor
  · rintro exact ⟨first, second⟩
    have above := (exact.mpr ⟨first, by bv_omega⟩).2.1
    bv_omega
  · intro outside
    constructor
    · exact And.left
    · rintro ⟨first, second⟩
      refine ⟨⟨first, second⟩, ?_, verifyCanaries_ok canaries⟩
      by_contra below
      exact outside ⟨first, by bv_omega⟩

/-- The check accepts a stack pointer in the middle of the second block. -/
theorem stack_check_accepts_0x700 :
    assertTaskPointerIntegrity .atmega2560 (fun _ => canaryValue) ((initialKernel.withSavedSp 1 0x700 0x1FE0).tasks 1)
        (initialKernel.withSavedSp 1 0x700 0x1FE0) = .ok () := by
  obtain ⟨k₁, kernelSetUp, scheduleSetUp⟩ := bind_eq_ok.mp (initialKernel_eq .atmega2560)
  have canaries : CanariesIntact fun _ => canaryValue := fun _ _ _ => rfl
  have exact := stack_check_exact kernelSetUp scheduleSetUp 0x1FE0 1 0x700 (taskSpRangeLow_slot _ 1)
    (taskSpRangeHigh_slot _ 1) canaries
  exact (exact.mpr (by decide)).mpr (by decide)

/-- **A false alarm**: 0x380 lies 48 bytes above the start of the first block, and the check takes it for the OS stack. -/
theorem stack_check_rejects_0x380 :
    assertTaskPointerIntegrity .atmega2560 (fun _ => canaryValue) ((initialKernel.withSavedSp 0 0x380 0x1FE0).tasks 0)
        (initialKernel.withSavedSp 0 0x380 0x1FE0) =
          .error (.assertion "MEMORY ERROR! Task pointer outside task pointer region!") ∧
      taskSpRangeLow .atmega2560 0 = .ok 0x350 ∧ 0x350 + numContextSwitchOverheadBytes ≤ 0x380 ∧
      taskSpRangeHigh .atmega2560 0 = .ok 0x5D8 ∧ (0x380 : Word) ≤ 0x5D8 := by
  exact ⟨rfl, rfl, by decide, rfl, by decide⟩

end Simplos
