import Simplos.Avr.Stores
import Simplos.Switch.Preemption

/-!
# The frame of a context switch

Everything `CONTEXT_SWTICH` stores, whatever state it is entered in: the stack pointers may be anything, and
the stacks may lie over the variables of the switch. `RESET_TIMER` computes the address of a register as for
`out` and stores with `sts`, so it clears the bytes 0x20 below `TCNT1` and leaves the count as it is.
-/

namespace Simplos
set_option autoImplicit false
open Avr

/-! ## The stores of the parts -/

theorem storesAll_saveSpToAdr (adr : Word) (s : Cpu) : storesAll (saveSpToAdr adr) s = [adr, adr + 1] := by
  simp [saveSpToAdr, storesAll, Instr.stores, Instr.effect, Cpu.setReg, Cpu.store, Cpu.pointer, Cpu.setPointer,
    Pointer.low, Pointer.high]

theorem storesAll_pushContext {s : Cpu} {a : Word} (stored : a ∈ storesAll pushContext s) : (s.sp - a).toNat < 33 := by
  rw [pushContext, storesAll_append, List.mem_append] at stored
  rcases stored with first | upper
  · simp only [storesAll, Instr.stores, Instr.effect, Cpu.setReg, List.append_nil, List.cons_append, List.nil_append,
      List.mem_cons, List.not_mem_nil, or_false] at first
    rcases first with rfl | rfl | rfl <;> bv_omega
  · have below := storesAll_push upper
    have length : upperRegisters.length = 30 := rfl
    simp only [execAll, Instr.effect, Cpu.setReg, Cpu.setLogic, length] at below
    bv_omega

theorem storesAll_scilentDisableMt (s : Cpu) : storesAll scilentDisableMt s = [s.sp, timsk1] := rfl

theorem storesAll_loadScheduledTask (s : Cpu) : storesAll loadScheduledTask s = [] := rfl

theorem execAll_scilentDisableMt_zero (s : Cpu) : (execAll scilentDisableMt s).regs 1 = s.regs 1 := by
  simp [scilentDisableMt, execAll, Instr.effect, Cpu.setReg, Cpu.store, Cpu.setLogic]

/-- The first half of a switch stores to the stack, to its two variables and to the timer mask. -/
theorem storesAll_savingCode {s : Cpu} {a : Word} (stored : a ∈ storesAll savingCode s) :
    (s.sp - a).toNat < 34 ∨ a ∈ [taskSpAdr, taskSpAdr + 1, prevTaskSpAdr, prevTaskSpAdr + 1, timsk1] := by
  have saved : (execAll (saveSpToAdr prevTaskSpAdr) (execAll (saveSpToAdr taskSpAdr) (execAll pushContext s))).sp =
      s.sp - 33 := contextSaved_sp s
  simp only [savingCode, saveContext, storesAll_append, execAll_append, storesAll_saveSpToAdr,
    storesAll_loadScheduledTask, storesAll_scilentDisableMt, saved, List.append_nil, List.mem_append] at stored
  rcases stored with ((pushed | task) | prev) | masking
  · have := storesAll_pushContext pushed
    omega
  · exact .inr (List.mem_append_left [prevTaskSpAdr, prevTaskSpAdr + 1, timsk1] task)
  · exact .inr (List.mem_append_right [taskSpAdr, taskSpAdr + 1] (List.mem_append_left [timsk1] prev))
  · rcases List.mem_cons.mp masking with rfl | timer
    · left
      bv_omega
    · right
      exact List.mem_append_right [taskSpAdr, taskSpAdr + 1, prevTaskSpAdr, prevTaskSpAdr + 1] timer

/-- The cells the choice of a stack pointer stores to, the bytes cleared by `RESET_TIMER` among them. -/
def selectingCells : List Word := [taskSpAdr, taskSpAdr + 1, nextTaskSpAdr + 1, nextTaskSpAdr, 0x65, 0x64]

theorem storesAll_switchingCode {s : Cpu} (x : s.pointer .x = nextTaskSpAdr + 1) :
    storesAll switchingCode s = selectingCells := by
  have back : nextTaskSpAdr + 1#16 - 1#16 = nextTaskSpAdr := BitVec.add_sub_cancel _ _
  simp only [Cpu.pointer, Pointer.low, Pointer.high] at x
  simp [switchingCode, storeSelected, resetTimer, clearIoReg, loadTaskSp, storesAll, Instr.stores, Instr.effect,
    Cpu.setReg, Cpu.store, Cpu.pointer, Cpu.setPointer, Pointer.low, Pointer.high, x, back, selectingCells, tcnt1h,
    tcnt1l]

/-! ## A switch in any state -/

/-- The stack pointer of the code a switch entered in `s` resumes, behind its registers. -/
def resumedSp (s : Cpu) : Word := selectedSp (timerMasked s).mem + 33

/-- What the first half of a switch leaves in the registers. -/
structure Offers (pc : Pc) (t : Cpu) : Prop where
  pc : t.pc = pc + 60
  zero : t.regs 1 = 0
  x : t.pointer .x = nextTaskSpAdr + 1
  chosen : t.regs 17 ++ t.regs 16 = readWord t.mem nextTaskSpAdr
  test : t.regs 18 = t.mem nextTaskSpAdr ||| t.mem (nextTaskSpAdr + 1)

theorem offers (s : Cpu) :
    Offers s.pc (execAll savingCode s) ∧ (execAll savingCode s).mem = (timerMasked s).mem := by
  have code := execAll_savingCode s
  have zero : (timerMasked s).regs 1 = 0 := by
    rw [timerMasked, execAll_scilentDisableMt_zero, contextSaved_zero]
  obtain ⟨mem, -, -, kept, x, low, high, test⟩ := execAll_loadScheduledTask (timerMasked s)
  rw [code]
  refine ⟨⟨?_, kept.trans zero, x, ?_, ?_⟩, mem⟩
  · rw [← code, execAll_pc]
    rfl
  · rw [low, high, mem, readWord]
  · rw [test, mem]

section

variable {program : Program} {P : Instr → Cpu → Prop} {pc : Pc} {s t : Cpu}

/-- **The code that is left** is left with stores to the 34 bytes below its stack pointer and to the cells of the
switch. -/
theorem runs_leaving {Region : Word → Prop} (code : ContextSwtichAt program s.pc)
    (stack : ∀ a, (s.sp - a).toNat < 34 → Region a) (cells : ∀ a ∈ switchCells, Region a) :
    ∃ n u, Runs program (fun i c => ∀ a ∈ i.stores c, Region a) n s u ∧ u.pc = s.pc + 82 ∧
      u.sp = selectedSp (timerMasked s).mem ∧ u.mem = switchedMem (timerMasked s).mem (selectedSp (timerMasked s).mem) := by
  have saving : Runs program (fun i c => ∀ a ∈ i.stores c, Region a) 58 s (execAll savingCode s) := by
    apply Runs.block_stores code.saving (by decide)
    intro a stored
    rcases storesAll_savingCode stored with pushed | cell
    · exact stack a pushed
    · have among : [taskSpAdr, taskSpAdr + 1, prevTaskSpAdr, prevTaskSpAdr + 1, timsk1] ⊆ switchCells := by decide
      exact cells a (among cell)
  obtain ⟨offered, mem⟩ := offers s
  have choice : ChoiceAt program (execAll savingCode s).pc := by
    rw [offered.pc]
    exact code.choice
  have test : (execAll savingCode s).regs 18 = (execAll savingCode s).regs 1 ↔
      readWord (execAll savingCode s).mem nextTaskSpAdr = 0 := by
    rw [offered.test, offered.zero]
    exact or_eq_zero_iff_readWord
  -- the choice itself stores nothing
  obtain ⟨u, selecting, chooses⟩ :=
    runs_choice (P := fun i c => ∀ a ∈ i.stores c, Region a) choice test offered.chosen (by
      intro i member c a stored
      have none : i.stores c = [] := by
        simp only [loadScheduler, List.mem_cons, List.not_mem_nil, or_false] at member
        rcases member with rfl | rfl | rfl | rfl | rfl | rfl <;> rfl
      rw [none] at stored
      cases stored)
  have at_switching : u.pc = s.pc + 66 := by
    rw [chooses.pc, offered.pc, BitVec.add_assoc]
    rfl
  have chosen : u.regs 17 ++ u.regs 16 = selectedSp (execAll savingCode s).mem := chooses.chosen
  have placed : Placed program u.pc switchingCode := by
    rw [at_switching]
    exact code.switching
  have switching : Runs program (fun i c => ∀ a ∈ i.stores c, Region a) 14 u (execAll switchingCode u) := by
    apply Runs.block_stores placed (by decide)
    rw [storesAll_switchingCode (chooses.x.trans offered.x)]
    intro a stored
    have among : selectingCells ⊆ switchCells := by decide
    exact cells a (among stored)
  obtain ⟨switched, sp⟩ := execAll_switchingCode (chooses.x.trans offered.x) (chooses.zero.trans offered.zero)
  rw [chosen, chooses.mem, mem] at switched
  rw [chosen, mem] at sp
  refine ⟨_, _, saving.trans (selecting.trans switching), ?_, sp, switched⟩
  rw [execAll_pc, at_switching, BitVec.add_assoc]
  rfl

/-- The resumed code is resumed with a store to the byte at its stack pointer and to the timer mask. -/
theorem runs_returning (code : ContextSwtichAt program pc) (start : s.pc = pc + 82) :
    ∃ t, Runs program (fun _ _ => True) 39 s t ∧ t.pc = pc + 123 ∧ t.sp = s.sp + 33 ∧
      (∀ a, a ≠ s.sp + 33 → a ≠ timsk1 → t.mem a = s.mem a) ∧
      (timsk1 ≠ s.sp + 33 → t.mem timsk1 = s.mem timsk1 ||| 2) := by
  have popping : Runs program (fun _ _ => True) 34 s (execAll popContext s) :=
    Runs.block (by rw [start]; exact code.popping) (by decide) fun _ _ _ => trivial
  have popped := execAll_popContext_any s
  have sp : (execAll popContext s).sp = s.sp + 33 := by rw [popped]
  have mem : (execAll popContext s).mem = s.mem := by rw [popped]
  have at_enabling : (execAll popContext s).pc = pc + 116 := by
    rw [popped, start, BitVec.add_assoc]
    rfl
  generalize execAll popContext s = v at popping sp mem at_enabling
  have enabling : Runs program (fun _ _ => True) 5 v (execAll scilentEnableMt v) :=
    Runs.block (by rw [at_enabling]; exact code.enabling) (by decide) fun _ _ _ => trivial
  refine ⟨_, popping.trans enabling, ?_, ?_, ?_, ?_⟩
  · rw [execAll_pc, at_enabling, BitVec.add_assoc]
    rfl
  · show v.sp - 1 + 1 = s.sp + 33
    rw [BitVec.sub_add_cancel, sp]
  · intro a scratch timer
    rw [← mem]
    apply execAll_outside
    show a ∉ [v.sp, timsk1]
    rw [sp]
    exact List.not_mem_cons_of_ne_of_not_mem scratch (List.not_mem_cons_of_ne_of_not_mem timer List.not_mem_nil)
  · intro apart
    have notTimer : v.sp ≠ timsk1 := by
      rw [sp]
      exact apart.symm
    rw [execAll_scilentEnableMt notTimer, ← mem]
    exact Function.update_self timsk1 _ (Function.update v.mem v.sp (v.regs 16))

end

/-! ## What a switch changes -/

/-- The bytes of the two stacks: 34 below the stack pointer the switch is entered with, and the one at the
stack pointer `sp` it resumes. -/
def StackByte (s : Cpu) (sp a : Word) : Prop := (s.sp - a).toNat < 34 ∨ a = sp

/-- The switch from `s` to `t` has changed only what it is meant to, and the timer starts anew. -/
structure ChangesOnly (s t : Cpu) : Prop where
  kept : ∀ a, ¬ StackByte s t.sp a →
    a ∉ [taskSpAdr, taskSpAdr + 1, prevTaskSpAdr, prevTaskSpAdr + 1, nextTaskSpAdr, nextTaskSpAdr + 1, timsk1, tcnt1l,
      tcnt1h] → t.mem a = s.mem a
  timer : ¬ StackByte s t.sp timsk1 → t.mem timsk1 = s.mem timsk1 ||| 2
  count : ∀ a ∈ [tcnt1l, tcnt1h], ¬ StackByte s t.sp a → t.mem a = 0

/-- Memory after a switch from `s` to `t`, outside the stacks and the variables of the switch. -/
structure Switched (s t : Cpu) : Prop where
  sp : t.sp = resumedSp s
  kept : ∀ a, ¬ StackByte s (resumedSp s) a →
    a ∉ [taskSpAdr, taskSpAdr + 1, prevTaskSpAdr, prevTaskSpAdr + 1, nextTaskSpAdr, nextTaskSpAdr + 1, timsk1, 0x65, 0x64] →
    t.mem a = s.mem a
  timer : ¬ StackByte s (resumedSp s) timsk1 → t.mem timsk1 = s.mem timsk1 ||| 2
  cleared : ∀ a ∈ [0x65, 0x64], ¬ StackByte s (resumedSp s) a → t.mem a = 0

theorem timerMasked_outside {s : Cpu} {a : Word} (outside : ¬ (s.sp - a).toNat < 34)
    (other : a ∉ [taskSpAdr, taskSpAdr + 1, prevTaskSpAdr, prevTaskSpAdr + 1, timsk1]) :
    (timerMasked s).mem a = s.mem a := by
  rw [← (offers s).2]
  apply execAll_outside
  intro stored
  rcases storesAll_savingCode stored with pushed | cell
  · exact outside pushed
  · exact other cell

theorem timerMasked_timer {s : Cpu} (outside : ¬ (s.sp - timsk1).toNat < 34) :
    (timerMasked s).mem timsk1 = s.mem timsk1 &&& ~~~2 := by
  have apart : (contextSaved s).sp ≠ timsk1 := by
    rw [contextSaved_sp]
    intro same
    bv_omega
  have below : (registerBytes s.regs s.sreg).length ≤ (s.sp - timsk1).toNat := by
    rw [registerBytes_length]
    omega
  have saved : (contextSaved s).mem timsk1 = s.mem timsk1 := by
    rw [contextSaved_kept s (by decide), pushContext_mem, pushBytes_outside _ below]
  rw [timerMasked, execAll_scilentDisableMt apart, ← saved]
  exact Function.update_self timsk1 _ (Function.update (contextSaved s).mem (contextSaved s).sp ((contextSaved s).regs 16))

/-- Disabling and enabling the timer again leaves the other bits of its mask. -/
theorem masked_enabled (b : Byte) : (b &&& ~~~2) ||| 2 = b ||| 2 := by revert b; decide

/-- **A switch in any state.** -/
theorem context_swtich_runs {program : Program} {s : Cpu} (code : ContextSwtichAt program s.pc) :
    ∃ n t, steps program n s = some t ∧ t.pc = s.pc + 123 ∧ Switched s t := by
  obtain ⟨n, u, leaving, at_popping, sp, mem⟩ :=
    runs_leaving code (fun _ _ => trivial) fun _ _ => trivial
  obtain ⟨t, returning, done, back, kept, timer⟩ := runs_returning code at_popping
  rw [sp] at kept timer back
  have all := (leaving.mono fun _ _ _ => trivial).trans returning
  refine ⟨_, t, all.steps, done, back, ?_, ?_, ?_⟩
  · intro a outside other
    rw [StackByte, not_or] at outside
    have notTimer : a ≠ timsk1 := by
      rintro rfl
      exact other (by decide)
    rw [kept a outside.2 notTimer, mem, switchedMem_kept, timerMasked_outside outside.1]
    · intro member
      have among : [taskSpAdr, taskSpAdr + 1, prevTaskSpAdr, prevTaskSpAdr + 1, timsk1] ⊆
          [taskSpAdr, taskSpAdr + 1, prevTaskSpAdr, prevTaskSpAdr + 1, nextTaskSpAdr, nextTaskSpAdr + 1, timsk1, 0x65, 0x64] := by
        decide
      exact other (among member)
    · intro member
      have among : [taskSpAdr, taskSpAdr + 1, nextTaskSpAdr, nextTaskSpAdr + 1, 0x65, 0x64] ⊆
          [taskSpAdr, taskSpAdr + 1, prevTaskSpAdr, prevTaskSpAdr + 1, nextTaskSpAdr, nextTaskSpAdr + 1, timsk1, 0x65, 0x64] := by
        decide
      exact other (among member)
  · intro outside
    rw [StackByte, not_or] at outside
    rw [timer outside.2, mem, switchedMem_kept (by decide), timerMasked_timer outside.1]
    exact masked_enabled (s.mem timsk1)
  · intro a member outside
    rw [StackByte, not_or] at outside
    simp only [List.mem_cons, List.not_mem_nil, or_false] at member
    rcases member with rfl | rfl
    · rw [kept _ outside.2 (by decide), mem]
      rfl
    · rw [kept _ outside.2 (by decide), mem]
      rfl

/-- Where the stack is none of the words read, the switch selects what it finds in them. -/
theorem resumedSp_eq {s : Cpu}
    (apart : ∀ a ∈ [nextTaskSpAdr, nextTaskSpAdr + 1, schedulerTaskSpAdr, schedulerTaskSpAdr + 1], 34 ≤ (s.sp - a).toNat) :
    resumedSp s = selectedSp s.mem + 33 := by
  have word : ∀ a, a ∈ [nextTaskSpAdr, nextTaskSpAdr + 1, schedulerTaskSpAdr, schedulerTaskSpAdr + 1] →
      a ∉ [taskSpAdr, taskSpAdr + 1, prevTaskSpAdr, prevTaskSpAdr + 1, timsk1] → (timerMasked s).mem a = s.mem a :=
    fun a member other => timerMasked_outside (Nat.not_lt.mpr (apart a member)) other
  have next : readWord (timerMasked s).mem nextTaskSpAdr = readWord s.mem nextTaskSpAdr :=
    readWord_congr (word _ (by decide) (by decide)) (word _ (by decide) (by decide))
  have scheduler : readWord (timerMasked s).mem schedulerTaskSpAdr = readWord s.mem schedulerTaskSpAdr :=
    readWord_congr (word _ (by decide) (by decide)) (word _ (by decide) (by decide))
  rw [resumedSp, selectedSp, next, scheduler, selectedSp]

/-- The count is as it was, and the bytes 0x20 below it are cleared: only if all four are zero already is nothing
else changed and the count zero. -/
theorem Switched.changesOnly_iff {s t : Cpu} (h : Switched s t) :
    ChangesOnly s t ↔ ∀ a ∈ [0x64, 0x65, tcnt1l, tcnt1h], ¬ StackByte s (resumedSp s) a → s.mem a = 0 := by
  constructor
  · intro only a member outside
    have away : ¬ StackByte s t.sp a := by rwa [h.sp]
    simp only [List.mem_cons, List.not_mem_nil, or_false] at member
    rcases member with rfl | rfl | rfl | rfl
    · rw [← only.kept _ away (by decide), h.cleared _ (by decide) outside]
    · rw [← only.kept _ away (by decide), h.cleared _ (by decide) outside]
    · rw [← h.kept _ outside (by decide), only.count _ (by decide) away]
    · rw [← h.kept _ outside (by decide), only.count _ (by decide) away]
  · intro zero
    refine ⟨?_, ?_, ?_⟩
    · intro a away other
      rw [h.sp] at away
      by_cases cleared : a ∈ [0x65, 0x64]
      · have among : [0x65, 0x64] ⊆ [0x64, 0x65, tcnt1l, tcnt1h] := by decide
        rw [h.cleared a cleared away, zero a (among cleared) away]
      · apply h.kept a away
        simp only [List.mem_cons, List.not_mem_nil, or_false, not_or] at other cleared ⊢
        obtain ⟨task, taskHigh, prev, prevHigh, next, nextHigh, timer, -, -⟩ := other
        exact ⟨task, taskHigh, prev, prevHigh, next, nextHigh, timer, cleared⟩
    · intro away
      rw [h.sp] at away
      exact h.timer away
    · intro a member away
      rw [h.sp] at away
      simp only [List.mem_cons, List.not_mem_nil, or_false] at member
      rcases member with rfl | rfl
      · rw [h.kept _ away (by decide), zero _ (by decide) away]
      · rw [h.kept _ away (by decide), zero _ (by decide) away]

/-- **A switch changes only what it is meant to and starts a full time slice** exactly if the count and the two bytes
0x20 below it are zero when it is entered, those apart that its stacks cover. Registers, `SP` and `SREG` are apart from
data memory here; on the device they lie below 0x60, and a stack pointer is above 0x200. -/
theorem context_switch_frame {program : Program} {s : Cpu} (placed : Placed program s.pc contextSwtich) :
    ∃ n t, steps program n s = some t ∧ t.pc = s.pc + 123 ∧ t.sp = resumedSp s ∧
      (ChangesOnly s t ↔ ∀ a ∈ [0x64, 0x65, tcnt1l, tcnt1h], ¬ StackByte s (resumedSp s) a → s.mem a = 0) := by
  obtain ⟨n, t, run, done, switched⟩ := context_swtich_runs (.of_placed placed)
  exact ⟨n, t, run, done, switched.sp, switched.changesOnly_iff⟩

/-! ### A concrete switch -/

/-- The handler is entered with `mem`. -/
def enteringHandler (mem : Memory) : Cpu where
  regs r := BitVec.ofNat 8 r.val
  sreg := ⟨false, false, false, false, false, false, false, false⟩
  sp := 0x800
  pc := 0x100
  mem := mem

/-- A task's context, saved from 0xA24 downwards and scheduled, in memory that is `mem` elsewhere. -/
def schedulingMem (mem : Memory) : Memory :=
  writeWord (pushBytes mem 0xA24 (Context.frame ⟨fun _ => 0, ⟨false, false, false, false, false, false, false, false⟩, 0x500⟩))
    nextTaskSpAdr 0xA00

theorem schedulingMem_resumedSp (mem : Memory) : resumedSp (enteringHandler (schedulingMem mem)) = 0xA21 := by
  have next : readWord (schedulingMem mem) nextTaskSpAdr = 0xA00 := readWord_writeWord _ _ _
  have apart : ∀ a ∈ [nextTaskSpAdr, nextTaskSpAdr + 1, schedulerTaskSpAdr, schedulerTaskSpAdr + 1],
      34 ≤ ((enteringHandler (schedulingMem mem)).sp - a).toNat := by
    intro a member
    show 34 ≤ ((0x800 : Word) - a).toNat
    simp only [List.mem_cons, List.not_mem_nil, or_false] at member
    rcases member with rfl | rfl | rfl | rfl <;> decide
  have selected : selectedSp (schedulingMem mem) = 0xA00 := by
    rw [selectedSp, next]
    exact if_neg (by decide)
  rw [resumedSp_eq apart]
  exact congrArg (· + 33) selected

theorem schedulingMem_outside {mem : Memory} {a : Word} (low : a.toNat ≤ 0x800) : schedulingMem mem a = mem a := by
  have next : a ≠ nextTaskSpAdr := by
    rintro rfl
    exact absurd low (by decide)
  have nextHigh : a ≠ nextTaskSpAdr + 1 := by
    rintro rfl
    exact absurd low (by decide)
  rw [schedulingMem, writeWord_outside next nextHigh]
  apply pushBytes_outside
  rw [Context.frame_length]
  show 36 ≤ ((0xA24 : Word) - a).toNat
  bv_omega

/-- Where the count was zero, and the bytes below it were, the switch to a scheduled task changes nothing else. -/
theorem context_switch_frame_of_scheduled :
    ∃ n t, steps sampleImage.program n (enteringHandler (schedulingMem fun _ => 0)) = some t ∧ t.sp = 0xA21 ∧
      ChangesOnly (enteringHandler (schedulingMem fun _ => 0)) t := by
  have placed : Placed sampleImage.program (enteringHandler (schedulingMem fun _ => 0)).pc contextSwtich :=
    (placed_append.mp sampleImage.handler).1
  obtain ⟨n, t, run, -, sp, only⟩ := context_switch_frame placed
  refine ⟨n, t, run, sp.trans (schedulingMem_resumedSp _), only.mpr fun a member _ => ?_⟩
  apply schedulingMem_outside
  simp only [List.mem_cons, List.not_mem_nil, or_false] at member
  rcases member with rfl | rfl | rfl | rfl <;> decide

/-- A count of 16, and 8 in the byte 0x20 below its high byte. -/
def countingMem : Memory := fun a => if a = tcnt1l then 16 else if a = 0x65 then 8 else 0

/-- **A count of 16 is kept** by the switch to a scheduled task, and 8 in the byte below is cleared. -/
theorem context_switch_keeps_count :
    ∃ n t, steps sampleImage.program n (enteringHandler (schedulingMem countingMem)) = some t ∧ t.sp = 0xA21 ∧
      t.mem tcnt1l = 16 ∧ t.mem 0x65 = 0 ∧ ¬ ChangesOnly (enteringHandler (schedulingMem countingMem)) t := by
  let s := enteringHandler (schedulingMem countingMem)
  obtain ⟨n, t, run, -, switched⟩ := context_swtich_runs (s := s) sampleImage.handler_switch
  have outside : ∀ a ∈ [0x65, tcnt1l], ¬ StackByte s (resumedSp s) a := by
    intro a member
    rw [schedulingMem_resumedSp]
    show ¬ (((0x800 : Word) - a).toNat < 34 ∨ a = 0xA21)
    simp only [List.mem_cons, List.not_mem_nil, or_false] at member
    rcases member with rfl | rfl <;> decide
  have kept : t.mem tcnt1l = s.mem tcnt1l := switched.kept tcnt1l (outside _ (by decide)) (by decide)
  have before : schedulingMem countingMem tcnt1l = 16 := schedulingMem_outside (by decide)
  have count : t.mem tcnt1l = 16 := kept.trans before
  have cleared : t.mem 0x65 = 0 := switched.cleared _ (by decide) (outside _ (by decide))
  refine ⟨n, t, run, switched.sp.trans (schedulingMem_resumedSp _), count, cleared, ?_⟩
  intro only
  have away := outside tcnt1l (by decide)
  rw [← switched.sp] at away
  have zero := only.count tcnt1l (by decide) away
  rw [count] at zero
  exact absurd zero (by decide)

end Simplos
