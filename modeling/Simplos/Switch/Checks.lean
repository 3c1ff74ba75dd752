import Simplos.Kernel.Scheduler
import Simplos.Kernel.StackCheck
import Simplos.Switch.Frame

/-!
# The scheduler's checks and the switch

`handle_previous_task` checks the stack pointer a switch has saved and the return address it finds above it.
Here the checks meet the bytes the instructions have pushed: which saved byte each of them reads, and whether
what the first accepts is enough for the next switch.
-/

namespace Simplos
set_option autoImplicit false
open Avr

/-! ## The saved return address -/

/-- The bytes of a 24-bit return address in the order they are pushed. -/
def addressBytes (ret : BitVec 24) : List Byte := [ret.extractLsb' 0 8, ret.extractLsb' 8 8, ret.extractLsb' 16 8]

/-- The three bytes above the stack pointer are the return address `ret`. -/
def ReturnPushed (s : Cpu) (ret : BitVec 24) : Prop :=
  ∀ k b, (addressBytes ret)[k]? = some b → s.mem (s.sp + 3 - BitVec.ofNat 16 k) = b

/-- The 36 bytes above `sp` are what `SAVE_CONTEXT` saves on top of `ret`. -/
def SavedAt (mem : Memory) (sp : Word) (ret : BitVec 24) (regs : RegFile) (sreg : Sreg) : Prop :=
  ∀ k b, (addressBytes ret ++ registerBytes regs sreg)[k]? = some b → mem (sp + 36 - BitVec.ofNat 16 k) = b

/-- **`SAVE_CONTEXT` saves** all registers and the flags on top of any return address, if `task_sp` is not among the
bytes it saves. -/
theorem saveContext_saves {s : Cpu} {ret : BitVec 24} (pushed : ReturnPushed s ret)
    (apart : ∀ a ∈ [taskSpAdr, taskSpAdr + 1], 36 ≤ (s.sp + 3 - a).toNat) :
    (execAll saveContext s).sp = s.sp - 33 ∧
      SavedAt (execAll saveContext s).mem (execAll saveContext s).sp ret s.regs s.sreg := by
  have sp : (execAll saveContext s).sp = s.sp - 33 := by
    rw [saveContext, execAll_append, (execAll_saveSpToAdr _ _).2.1, execAll_pushContext]
  refine ⟨sp, ?_⟩
  intro k b entry
  have bound : k < (addressBytes ret ++ registerBytes s.regs s.sreg).length := (List.getElem?_eq_some_iff.mp entry).1
  rw [List.length_append, registerBytes_length] at bound
  have short : k < 36 := bound
  have low := apart taskSpAdr List.mem_cons_self
  have high := apart (taskSpAdr + 1) (List.mem_cons_of_mem _ List.mem_cons_self)
  rw [sp, saveContext, execAll_append, (execAll_saveSpToAdr _ _).1, writeWord_outside]
  · exact pushContext_frame rfl pushed entry
  · intro same
    bv_omega
  · intro same
    bv_omega

section

variable {mem : Memory} {sp : Word} {ret : BitVec 24} {regs : RegFile} {sreg : Sreg}

/-- **What the check reads** is the flags, `r0` and the highest byte of the return address. -/
theorem savedTaskPc_eq (saved : SavedAt mem sp ret regs sreg) :
    savedTaskPc mem sp = (0 : Byte) ++ ret.extractLsb' 16 8 ++ regs 0 ++ sreg.toByte := by
  have high : mem (sp + 32 + 2) = ret.extractLsb' 16 8 := by
    have same : sp + 32 + 2 = sp + 36 - BitVec.ofNat 16 2 := by bv_omega
    rw [same]
    exact saved 2 _ rfl
  have mid : mem (sp + 32 + 1) = regs 0 := by
    have same : sp + 32 + 1 = sp + 36 - BitVec.ofNat 16 3 := by bv_omega
    rw [same]
    exact saved 3 _ rfl
  have low : mem (sp + 32) = sreg.toByte := by
    have same : sp + 32 = sp + 36 - BitVec.ofNat 16 4 := by bv_omega
    rw [same]
    exact saved 4 _ rfl
  have offset : sp + (numContextSwitchOverheadBytes - 3 - 1) = sp + 32 := rfl
  rw [savedTaskPc, offset, high, mid, low]

theorem append_eq_zero {v w : Nat} {x : BitVec v} {y : BitVec w} : x ++ y = 0 ↔ x = 0 ∧ y = 0 := by
  constructor
  · intro zero
    have left := congrArg (fun b => b.extractLsb' w v) zero
    have right := congrArg (fun b => b.extractLsb' 0 w) zero
    simp only [BitVec.extractLsb'_append_eq_left, BitVec.extractLsb'_append_eq_right] at left right
    simpa using And.intro left right
  · rintro ⟨rfl, rfl⟩
    simp

/-- The mask of invalid bits selects the upper seven bits of the third byte. -/
theorem masked_eq_zero (h r f : Byte) : ((0 : Byte) ++ h ++ r ++ f : BitVec 32) &&& 0x00FE0000 = 0 ↔ h.toNat < 2 := by
  have mask : (0x00FE0000 : BitVec 32) = (0 : Byte) ++ (0xFE : Byte) ++ (0 : Byte) ++ (0 : Byte) := by decide
  have top : h &&& 0xFE = 0 ↔ h.toNat < 2 := by
    revert h
    decide
  rw [mask, BitVec.and_append, BitVec.and_append, BitVec.and_append, append_eq_zero, append_eq_zero, append_eq_zero, top]
  simp

/-- **What the check accepts**, on any saved context. -/
theorem returnAddressCheck_ok (saved : SavedAt mem sp ret regs sreg) :
    assertStackPointerPointsToValidReturnAddress .atmega2560 mem sp = .ok () ↔
      ret.toNat < 2 ^ 17 ∧ ¬ (ret.toNat < 2 ^ 16 ∧ regs 0 = 0 ∧ sreg.toByte = 0) := by
  have upper : (ret.extractLsb' 16 8).toNat = ret.toNat / 65536 := by
    have := ret.isLt
    simp [Nat.shiftRight_eq_div_pow]
    omega
  have upperZero : ret.extractLsb' 16 8 = 0 ↔ ret.toNat < 2 ^ 16 := by
    rw [← BitVec.toNat_inj, upper]
    show ret.toNat / 65536 = 0 ↔ _
    omega
  have valid : (savedTaskPc mem sp &&& 0x00FE0000 == 0) = true ↔ ret.toNat < 2 ^ 17 := by
    rw [savedTaskPc_eq saved, beq_iff_eq, masked_eq_zero, upper]
    omega
  have nonzero : (savedTaskPc mem sp != 0) = true ↔ ¬ (ret.toNat < 2 ^ 16 ∧ regs 0 = 0 ∧ sreg.toByte = 0) := by
    rw [savedTaskPc_eq saved, bne_iff_ne, ne_eq, append_eq_zero, append_eq_zero, append_eq_zero, upperZero]
    simp [and_assoc]
  rw [assertStackPointerPointsToValidReturnAddress]
  simp only [Lib.bind_eq_ok, assert_ok, valid, nonzero]
  constructor
  · rintro ⟨-, first, second⟩
    exact ⟨first, second⟩
  · rintro ⟨first, second⟩
    exact ⟨(), first, second⟩

/-- **The check accepts exactly the valid return addresses** where the return address lies beyond 2¹⁶, or `r0` and the
flags are saved as zero exactly if it is zero. -/
theorem return_address_check_exact (saved : SavedAt mem sp ret regs sreg) :
    (assertStackPointerPointsToValidReturnAddress .atmega2560 mem sp = .ok () ↔ ret ≠ 0 ∧ ret.toNat < 2 ^ 17) ↔
      2 ^ 16 ≤ ret.toNat ∨ (regs 0 = 0 ∧ sreg.toByte = 0 ↔ ret = 0) := by
  have zero : ret = 0 ↔ ret.toNat = 0 := by
    rw [← BitVec.toNat_inj]
    rfl
  rw [returnAddressCheck_ok saved, ne_eq, zero]
  by_cases below : ret.toNat < 2 ^ 16
  · have notBeyond : ¬ 2 ^ 16 ≤ ret.toNat := by omega
    have valid : ret.toNat < 2 ^ 17 := by omega
    simp only [below, valid, notBeyond, true_and, and_true, false_or]
    exact not_iff_not
  · have beyond : 2 ^ 16 ≤ ret.toNat := by omega
    have nonzero : ret.toNat ≠ 0 := by omega
    simp only [below, beyond, nonzero, false_and, not_false_eq_true, true_and, and_true, true_or]

end

/-- A call or an interrupt has pushed `ret`; `r0` holds `r0` and all flags are clear. -/
def savingCpu (ret : BitVec 24) (r0 : Byte) : Cpu where
  regs r := if r = 0 then r0 else BitVec.ofNat 8 r.val
  sreg := ⟨false, false, false, false, false, false, false, false⟩
  sp := 0x7FD
  pc := 0x100
  mem := pushBytes (fun _ => 0) 0x800 (addressBytes ret)

theorem savingCpu_mem (ret : BitVec 24) (r0 : Byte) :
    (savingCpu ret r0).mem = pushBytes (fun _ => 0) 0x800 (addressBytes ret) := rfl

theorem savingCpu_sp (ret : BitVec 24) (r0 : Byte) : (savingCpu ret r0).sp = 0x7FD := rfl

theorem savingCpu_saves (ret : BitVec 24) (r0 : Byte) :
    SavedAt (execAll saveContext (savingCpu ret r0)).mem (execAll saveContext (savingCpu ret r0)).sp ret
      (savingCpu ret r0).regs (savingCpu ret r0).sreg := by
  refine (saveContext_saves ?_ ?_).2
  · intro k b entry
    have top : (0x7FD : Word) + 3 = 0x800 := by decide
    rw [savingCpu_mem, savingCpu_sp, top]
    apply pushBytes_inside (fun _ => 0) entry
    simp [addressBytes]
  · intro a member
    show 36 ≤ ((0x7FD : Word) + 3 - a).toNat
    simp only [List.mem_cons, List.not_mem_nil, or_false] at member
    rcases member with rfl | rfl <;> decide

/-- A context with `r0` nonzero that returns to 0x400 is accepted. -/
theorem return_address_check_accepts_0x400 :
    assertStackPointerPointsToValidReturnAddress .atmega2560 (execAll saveContext (savingCpu 0x400 1)).mem
      (execAll saveContext (savingCpu 0x400 1)).sp = .ok () := by
  have exact := return_address_check_exact (savingCpu_saves 0x400 1)
  exact (exact.mpr (.inr (by decide))).mpr (by decide)

/-- **A valid context is rejected** that was saved with `r0` and the flags zero, and an invalid one accepted that was
saved with `r0` nonzero. -/
theorem return_address_check_misjudges :
    assertStackPointerPointsToValidReturnAddress .atmega2560 (execAll saveContext (savingCpu 0x400 0)).mem
        (execAll saveContext (savingCpu 0x400 0)).sp ≠ .ok () ∧
      assertStackPointerPointsToValidReturnAddress .atmega2560 (execAll saveContext (savingCpu 0 1)).mem
        (execAll saveContext (savingCpu 0 1)).sp = .ok () := by
  rw [returnAddressCheck_ok (savingCpu_saves 0 1), ne_eq, returnAddressCheck_ok (savingCpu_saves 0x400 0)]
  decide

/-! ## The reserve -/

/-- What a task's stack pointer is accepted for: a return address and 34 more bytes fit below it into its block. -/
theorem accepted_reserve {mem : DataMemory} {task : SimplosTask} {kernel : Kernel} {slot : Fin tasksMax} {a : Word}
    (block : task.taskMemoryBlock = slotIndex slot)
    (range : kernel.taskRamRanges slot = { low := blockLow slot, high := blockHigh slot })
    (accepted : assertTaskPointerIntegrity .atmega2560 mem task kernel = .ok ()) :
    (a ∈ pcStores task.taskSpAdr → blockLow slot ≤ a ∧ a ≤ blockHigh slot) ∧
      ((task.taskSpAdr - 3 - a).toNat < 34 → blockLow slot ≤ a ∧ a ≤ blockHigh slot) := by
  obtain ⟨⟨bottom, top⟩, -⟩ := (assertTaskPointerIntegrity_ok block range).mp accepted
  obtain ⟨low, high, order, ram⟩ := block_bounds slot
  unfold numContextSwitchOverheadBytes at bottom
  unfold taskRamEnd at low
  unfold taskRamStart at ram
  constructor
  · intro stored
    simp only [pcStores, List.mem_cons, List.not_mem_nil, or_false] at stored
    rcases stored with rfl | rfl | rfl <;> constructor <;> bv_omega
  · intro stored
    constructor <;> bv_omega

/-- A switch is entered from `s`, by the interrupt of the timer or by a call of `k_yield`. -/
inductive EntersSwitch (image : Image) (s : Cpu) : Cpu → Prop where
  | interrupt : EntersSwitch image s (s.interrupt timer1CompaVector)
  | call (back : Pc) : EntersSwitch image s { s.pushPc back with pc := image.kYieldAdr }

/-- Entering a switch stores the return address. -/
theorem EntersSwitch.outside {image : Image} {s entered : Cpu} (enters : EntersSwitch image s entered) {a : Word}
    (outside : a ∉ pcStores s.sp) : entered.mem a = s.mem a := by
  cases enters with
  | interrupt => exact pushPc_outside s.pc outside
  | call back => exact pushPc_outside back outside

/-- **The outgoing stack** takes 34 bytes below the return address, until its stack pointer is given up. -/
theorem EntersSwitch.leaves {image : Image} {s entered : Cpu} {Region : Word → Prop} (enters : EntersSwitch image s entered)
    (stack : ∀ a, (s.sp - 3 - a).toNat < 34 → Region a) (cells : ∀ a ∈ switchCells, Region a) :
    ∃ n u, Runs image.program (fun i c => ∀ a ∈ i.stores c, Region a) n entered u ∧ u.sp = readWord u.mem taskSpAdr ∧
      Placed image.program u.pc popContext := by
  obtain ⟨m, e, entering, code, sp⟩ : ∃ m e, Runs image.program (fun i c => ∀ a ∈ i.stores c, Region a) m entered e ∧
      ContextSwtichAt image.program e.pc ∧ e.sp = s.sp - 3 := by
    cases enters with
    | interrupt =>
      have jump : Runs image.program (fun i c => ∀ a ∈ i.stores c, Region a) 1 (s.interrupt timer1CompaVector) _ :=
        .one (i := .jmp image.timer1CompaVectAdr) image.vector.1 fun _ => nofun
      exact ⟨_, _, jump, image.handler_switch, rfl⟩
    | call back =>
      have masking : Runs image.program (fun i c => ∀ a ∈ i.stores c, Region a) 1
          { s.pushPc back with pc := image.kYieldAdr } _ := .one (i := .cli) image.kYield_cli fun _ => nofun
      exact ⟨_, _, masking, image.kYield_parts.1, rfl⟩
  rw [← sp] at stack
  obtain ⟨n, u, leaving, at_popping, chosen, mem⟩ := runs_leaving code stack cells
  refine ⟨_, u, entering.trans leaving, ?_, ?_⟩
  · rw [mem, readWord_switchedMem, chosen]
  · rw [at_popping]
    exact code.popping

/-- **An accepted stack pointer is enough for a switch.** The return address lies in the block of the slot, and so does
every byte the switch stores until it gives up the stack pointer, its variables and the registers of the timer apart. -/
theorem switch_stays_in_block (image : Image) {k₀ k₁ kernel : Kernel} (kernelSetUp : initKernel .atmega2560 k₀ = .ok k₁)
    (ranges : kernel.taskRamRanges = k₁.taskRamRanges) {slot : Fin tasksMax} {task : SimplosTask}
    (block : task.taskMemoryBlock = slotIndex slot) {low high : Word}
    (spRangeLow : taskSpRangeLow .atmega2560 (slotIndex slot) = .ok low)
    (spRangeHigh : taskSpRangeHigh .atmega2560 (slotIndex slot) = .ok high) {mem : DataMemory}
    (accepted : assertTaskPointerIntegrity .atmega2560 mem task kernel = .ok ()) {s entered : Cpu}
    (sp : s.sp = task.taskSpAdr) (enters : EntersSwitch image s entered) :
    (∀ a ∈ pcStores s.sp, low ≤ a ∧ a ≤ high) ∧ (∀ a, a ∉ pcStores s.sp → entered.mem a = s.mem a) ∧
      ∃ n u, Runs image.program (fun i c => ∀ a ∈ i.stores c, (low ≤ a ∧ a ≤ high) ∨ a ∈ switchCells) n entered u ∧
        u.sp = readWord u.mem taskSpAdr ∧ Placed image.program u.pc popContext := by
  have range : kernel.taskRamRanges slot = { low := blockLow slot, high := blockHigh slot } :=
    (congrFun ranges slot).trans (setUp_ranges kernelSetUp slot)
  obtain rfl := Except.ok.inj ((taskSpRangeLow_slot _ slot).symm.trans spRangeLow)
  obtain rfl := Except.ok.inj ((taskSpRangeHigh_slot _ slot).symm.trans spRangeHigh)
  refine ⟨?_, fun _ => enters.outside, ?_⟩
  · intro a stored
    rw [sp] at stored
    exact (accepted_reserve block range accepted).1 stored
  · apply enters.leaves
    · intro a below
      rw [sp] at below
      exact .inl ((accepted_reserve block range accepted).2 below)
    · intro a cell
      exact .inr cell

/-- A task at the lowest stack pointer the check accepts in the second block. -/
def edgeCpu : Cpu where
  regs r := BitVec.ofNat 8 r.val
  sreg := ⟨true, false, false, false, false, false, false, false⟩
  sp := 0x5FD
  pc := 0x400
  mem _ := canaryValue

theorem switch_stays_in_block_at_edge :
    ∃ n u, Runs sampleImage.program (fun i c => ∀ a ∈ i.stores c, (0x5D9 ≤ a ∧ a ≤ 0x861) ∨ a ∈ switchCells) n
      (edgeCpu.interrupt timer1CompaVector) u ∧ u.sp = readWord u.mem taskSpAdr := by
  obtain ⟨k₁, kernelSetUp, scheduleSetUp⟩ := Lib.bind_eq_ok.mp (initialKernel_eq .atmega2560)
  have ranges : (initialKernel.withSavedSp 1 0x5FD 0x1FE0).taskRamRanges = k₁.taskRamRanges :=
    (setUp_blocks scheduleSetUp 1).2
  have block : ((initialKernel.withSavedSp 1 0x5FD 0x1FE0).tasks 1).taskMemoryBlock = slotIndex 1 := rfl
  have accepted : assertTaskPointerIntegrity .atmega2560 (fun _ => canaryValue)
      ((initialKernel.withSavedSp 1 0x5FD 0x1FE0).tasks 1) (initialKernel.withSavedSp 1 0x5FD 0x1FE0) = .ok () := by
    refine (assertTaskPointerIntegrity_ok block ?_).mpr ⟨by decide, by decide, ?_⟩
    · exact (congrFun ranges 1).trans (setUp_ranges kernelSetUp 1)
    · exact verifyCanaries_ok fun _ _ _ => rfl
  obtain ⟨-, -, n, u, run, sp, -⟩ := switch_stays_in_block sampleImage kernelSetUp ranges block
    (taskSpRangeLow_slot _ 1) (taskSpRangeHigh_slot _ 1) accepted (s := edgeCpu) rfl .interrupt
  exact ⟨n, u, run, sp⟩

end Simplos
