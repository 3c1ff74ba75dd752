import Simplos.Switch.Macros

/-!
# What the macros of the context switch do

One lemma per macro, and from them the two halves of `CONTEXT_SWTICH`: everything up to the choice of
the next stack pointer (`Saves`), and everything from the chosen stack pointer to the restored
context (`restores_context`). Besides the stack the switch writes only the addresses in
`switchCells`; `Clear sp n` says that the `n` bytes from `sp` downwards are none of them.
-/

namespace Simplos
set_option autoImplicit false
open Avr

/-! ## Saved contexts -/

/-- What a switch saves of the code it leaves. -/
structure Context where
  regs : RegFile
  sreg : Sreg
  pc : Pc

/-- What `SAVE_CONTEXT` pushes, in the order it does. -/
def registerBytes (regs : RegFile) (sreg : Sreg) : List Byte :=
  regs 0 :: sreg.toByte :: (1 :: upperRegisters).map regs

theorem registerBytes_length (regs : RegFile) (sreg : Sreg) : (registerBytes regs sreg).length = 33 := rfl

/-- The bytes of a saved context in the order they are pushed. -/
def Context.frame (ctx : Context) : List Byte := pcBytes ctx.pc ++ registerBytes ctx.regs ctx.sreg

/-- A saved context takes `num_context_switch_overhead_bytes()`. -/
theorem Context.frame_length (ctx : Context) : ctx.frame.length = numContextSwitchOverheadBytes.toNat := rfl

/-- The 36 bytes above `sp` are the context `ctx`, complete. -/
def SavedContext (mem : Memory) (sp : Word) (ctx : Context) : Prop :=
  ∀ k b, ctx.frame[k]? = some b → mem (sp + 36 - BitVec.ofNat 16 k) = b

theorem SavedContext.congr {mem mem' : Memory} {sp : Word} {ctx : Context} (h : SavedContext mem sp ctx)
    (same : ∀ a, (sp + 36 - a).toNat < 36 → mem' a = mem a) : SavedContext mem' sp ctx := by
  intro k b entry
  have bound : k < ctx.frame.length := (List.getElem?_eq_some_iff.mp entry).1
  rw [Context.frame_length] at bound
  rw [same, h k b entry]
  simp only [numContextSwitchOverheadBytes] at bound
  bv_omega

/-- A switch is entered in a state with context `ctx`: the return address is on the stack. -/
structure Enters (s : Cpu) (ctx : Context) : Prop where
  regs : s.regs = ctx.regs
  sreg : s.sreg = ctx.sreg
  returns : ReturnsTo s.mem s.sp ctx.pc

/-! ## The macros -/

/-- The data addresses `CONTEXT_SWTICH` uses besides the stack: the registers `RESET_TIMER` and the
two `SCILENT` macros store to, and the four stack-pointer variables. -/
def switchCells : List Word :=
  [0x64, 0x65, timsk1, prevTaskSpAdr, prevTaskSpAdr + 1, nextTaskSpAdr, nextTaskSpAdr + 1, schedulerTaskSpAdr,
    schedulerTaskSpAdr + 1, taskSpAdr, taskSpAdr + 1]

/-- The `n` bytes from `sp` downwards are none of the `switchCells`. -/
def Clear (sp : Word) (n : Nat) : Prop := ∀ a ∈ switchCells, n ≤ (sp - a).toNat

instance (sp : Word) (n : Nat) : Decidable (Clear sp n) :=
  List.decidableBAll (fun a => n ≤ (sp - a).toNat) switchCells

theorem execAll_pushContext (s : Cpu) :
    execAll pushContext s =
      { regs := Function.update (Function.update s.regs 0 s.sreg.toByte) 1 0
        sreg := s.sreg.logic 0
        sp := s.sp - 33
        pc := s.pc + 35
        mem := pushBytes s.mem s.sp (registerBytes s.regs s.sreg) } := by
  rw [pushContext, execAll_append, execAll_push]
  simp [execAll, Instr.effect, Cpu.setReg, Cpu.setLogic, Cpu.readIo, pushBytes, Instr.size, registerBytes,
    upperRegisters]
  bv_omega

theorem execAll_saveSpToAdr (adr : Word) (s : Cpu) :
    (execAll (saveSpToAdr adr) s).mem = writeWord s.mem adr s.sp ∧
      (execAll (saveSpToAdr adr) s).sp = s.sp ∧
      (execAll (saveSpToAdr adr) s).sreg = s.sreg ∧
      (execAll (saveSpToAdr adr) s).regs 1 = s.regs 1 := by
  simp [saveSpToAdr, execAll, Instr.effect, Cpu.setReg, Cpu.store, Cpu.pointer, Cpu.setPointer, Pointer.low,
    Pointer.high, Cpu.readIo, writeWord]

theorem execAll_scilentEnableMt {s : Cpu} (apart : s.sp ≠ timsk1) :
    execAll scilentEnableMt s =
      { s with
        sreg := s.sreg.logic (s.mem timsk1 ||| 2)
        mem := Function.update (Function.update s.mem s.sp (s.regs 16)) timsk1 (s.mem timsk1 ||| 2)
        pc := s.pc + 7 } := by
  have back : s.sp - 1#16 + 1#16 = s.sp := BitVec.sub_add_cancel _ _
  simp [scilentEnableMt, execAll, Instr.effect, Cpu.setReg, Cpu.store, Cpu.setLogic, Instr.size,
    apart, apart.symm, BitVec.add_assoc, ocie1a, back]

theorem execAll_scilentDisableMt {s : Cpu} (apart : s.sp ≠ timsk1) :
    execAll scilentDisableMt s =
      { s with
        sreg := s.sreg.logic (s.mem timsk1 &&& ~~~2)
        mem := Function.update (Function.update s.mem s.sp (s.regs 16)) timsk1 (s.mem timsk1 &&& ~~~2)
        pc := s.pc + 7 } := by
  have back : s.sp - 1#16 + 1#16 = s.sp := BitVec.sub_add_cancel _ _
  simp [scilentDisableMt, execAll, Instr.effect, Cpu.setReg, Cpu.store, Cpu.setLogic, Instr.size,
    apart, apart.symm, BitVec.add_assoc, ocie1a, back]

theorem execAll_loadScheduledTask (s : Cpu) :
    (execAll loadScheduledTask s).mem = s.mem ∧
      (execAll loadScheduledTask s).sp = s.sp ∧
      (execAll loadScheduledTask s).sreg.i = s.sreg.i ∧
      (execAll loadScheduledTask s).regs 1 = s.regs 1 ∧
      (execAll loadScheduledTask s).pointer .x = nextTaskSpAdr + 1 ∧
      (execAll loadScheduledTask s).regs 16 = s.mem nextTaskSpAdr ∧
      (execAll loadScheduledTask s).regs 17 = s.mem (nextTaskSpAdr + 1) ∧
      (execAll loadScheduledTask s).regs 18 = s.mem nextTaskSpAdr ||| s.mem (nextTaskSpAdr + 1) := by
  simp [loadScheduledTask, execAll, Instr.effect, Cpu.setReg, Cpu.pointer, Cpu.setPointer, Cpu.setLogic,
    Pointer.low, Pointer.high]

theorem execAll_loadScheduler (s : Cpu) :
    (execAll loadScheduler s).mem = s.mem ∧
      (execAll loadScheduler s).sp = s.sp ∧
      (execAll loadScheduler s).sreg = s.sreg ∧
      (execAll loadScheduler s).regs 1 = s.regs 1 ∧
      (execAll loadScheduler s).pointer .x = s.pointer .x ∧
      (execAll loadScheduler s).regs 16 = s.mem schedulerTaskSpAdr ∧
      (execAll loadScheduler s).regs 17 = s.mem (schedulerTaskSpAdr + 1) := by
  simp [loadScheduler, execAll, Instr.effect, Cpu.setReg, Cpu.pointer, Cpu.setPointer, Pointer.low, Pointer.high]

/-- The memory `storeSelected` leaves: the choice in `task_sp`, nothing scheduled. -/
theorem execAll_storeSelected {s : Cpu} (x : s.pointer .x = nextTaskSpAdr + 1) (zero : s.regs 1 = 0) :
    (execAll storeSelected s).mem =
        Function.update (Function.update (writeWord s.mem taskSpAdr (s.regs 17 ++ s.regs 16)) (nextTaskSpAdr + 1) 0)
          nextTaskSpAdr 0 ∧
      (execAll storeSelected s).sp = s.sp ∧
      (execAll storeSelected s).sreg = s.sreg ∧
      (execAll storeSelected s).regs 1 = 0 := by
  have back : nextTaskSpAdr + 1#16 - 1#16 = nextTaskSpAdr := BitVec.add_sub_cancel _ _
  simp only [Cpu.pointer, Pointer.low, Pointer.high] at x
  simp [storeSelected, execAll, Instr.effect, Cpu.setReg, Cpu.store, Cpu.pointer, Cpu.setPointer, Pointer.low,
    Pointer.high, writeWord, x, zero, back]

theorem execAll_resetTimer {s : Cpu} (zero : s.regs 1 = 0) :
    execAll resetTimer s =
      { s with mem := Function.update (Function.update s.mem 0x65 0) 0x64 0, pc := s.pc + 4 } := by
  simp [resetTimer, clearIoReg, execAll, Instr.effect, Cpu.store, zero, Instr.size, tcnt1h, tcnt1l, BitVec.add_assoc]

theorem execAll_loadTaskSp (s : Cpu) :
    (execAll loadTaskSp s).mem = s.mem ∧ (execAll loadTaskSp s).sp = readWord s.mem taskSpAdr := by
  simp [loadTaskSp, execAll, Instr.effect, Cpu.setReg, Cpu.pointer, Cpu.setPointer, Pointer.low, Pointer.high,
    Cpu.writeIo, readWord]

/-! ## Restoring a context -/

namespace SavedContext

variable {mem : Memory} {sp : Word} {ctx : Context}

theorem r0 (h : SavedContext mem sp ctx) : mem (sp + 33) = ctx.regs 0 := by
  have entry := h 3 (ctx.regs 0) rfl
  have same : sp + 36 - BitVec.ofNat 16 3 = sp + 33 := by bv_omega
  rwa [same] at entry

theorem sreg (h : SavedContext mem sp ctx) : mem (sp + 32) = ctx.sreg.toByte := by
  have entry := h 4 ctx.sreg.toByte rfl
  have same : sp + 36 - BitVec.ofNat 16 4 = sp + 32 := by bv_omega
  rwa [same] at entry

theorem register (h : SavedContext mem sp ctx) {r : Reg} (upper : r ≠ 0) :
    mem (sp + BitVec.ofNat 16 (31 - r.val + 1)) = ctx.regs r := by
  have listed : (1 :: upperRegisters)[r.val - 1]? = some r := by revert r; decide
  have entry : ctx.frame[r.val - 1 + 5]? = some (ctx.regs r) := by
    show ((1 :: upperRegisters).map ctx.regs)[r.val - 1]? = some (ctx.regs r)
    rw [List.getElem?_map, listed]
    rfl
  have positive : r.val ≠ 0 := fun h => upper (Fin.ext h)
  have same : sp + BitVec.ofNat 16 (31 - r.val + 1) = sp + 36 - BitVec.ofNat 16 (r.val - 1 + 5) := by bv_omega
  rw [same]
  exact h _ _ entry

theorem returns (h : SavedContext mem sp ctx) : ReturnsTo mem (sp + 33) ctx.pc := by
  intro k b entry
  have bound : k < (pcBytes ctx.pc).length := (List.getElem?_eq_some_iff.mp entry).1
  have same : sp + 33 + 3 - BitVec.ofNat 16 k = sp + 36 - BitVec.ofNat 16 k := by bv_omega
  rw [same]
  apply h k b
  rw [Context.frame, List.getElem?_append_left bound]
  exact entry

end SavedContext

/-- The pops of `RESTORE_CONTEXT` up to the one that restores the flags. -/
def popRegisters : List Instr := (upperRegisters.reverse ++ [1]).map .pop ++ [.pop 0]

theorem popContext_parts : popContext = popRegisters ++ [.out .sreg 0, .pop 0] := rfl

/-- What `RESTORE_CONTEXT` pops, whatever it is. -/
theorem execAll_popContext_any (s : Cpu) :
    execAll popContext s =
      { regs := Function.update (popRegs s.mem s.sp s.regs (upperRegisters.reverse ++ [1])) 0 (s.mem (s.sp + 33))
        sreg := Sreg.ofByte (s.mem (s.sp + 32))
        sp := s.sp + 33
        pc := s.pc + 34
        mem := s.mem } := by
  rw [popContext, execAll_append, execAll_pop]
  simp [execAll, Instr.effect, Cpu.setReg, Cpu.writeIo, Instr.size, upperRegisters, BitVec.add_assoc]

theorem execAll_popContext {s : Cpu} {ctx : Context} (saved : SavedContext s.mem s.sp ctx) :
    execAll popContext s =
      { regs := ctx.regs, sreg := ctx.sreg, sp := s.sp + 33, pc := s.pc + 34, mem := s.mem } := by
  have regs : Function.update (popRegs s.mem s.sp s.regs (upperRegisters.reverse ++ [1])) 0 (s.mem (s.sp + 33)) =
      ctx.regs := by
    funext r
    by_cases zero : r = 0
    · rw [zero, Function.update_self, saved.r0]
    · have distinct : (upperRegisters.reverse ++ [1]).Nodup := by decide
      have listed : (upperRegisters.reverse ++ [1])[31 - r.val]? = some r := by revert r; decide
      rw [Function.update_of_ne zero, popRegs_getElem distinct listed, saved.register zero]
  rw [execAll_popContext_any, regs, saved.sreg, Sreg.ofByte_toByte]

/-! ## The parts of `CONTEXT_SWTICH` -/

/-- `CONTEXT_SWTICH` up to the test whether a task is scheduled. -/
def savingCode : List Instr :=
  saveContext ++ saveSpToAdr prevTaskSpAdr ++ scilentDisableMt ++ loadScheduledTask

/-- `CONTEXT_SWTICH` from the choice of a stack pointer to the switch of stacks. -/
def switchingCode : List Instr := storeSelected ++ resetTimer ++ loadTaskSp

/-- Where the parts of `CONTEXT_SWTICH` lie. -/
structure ContextSwtichAt (program : Program) (pc : Pc) : Prop where
  saving : Placed program pc savingCode
  cpse : program (pc + 60) = some (.cpse 18 1)
  rjmp : program (pc + 61) = some (.rjmp 4)
  scheduler : Placed program (pc + 62) loadScheduler
  switching : Placed program (pc + 66) switchingCode
  popping : Placed program (pc + 82) popContext
  enabling : Placed program (pc + 116) scilentEnableMt

theorem contextSwtich_parts :
    contextSwtich =
      savingCode ++ ([.cpse 18 1, .rjmp 4] ++ (loadScheduler ++ (switchingCode ++ (popContext ++ scilentEnableMt)))) := by
  simp [contextSwtich, savingCode, switchingCode, selectScheduledTaskOrScheduler, restoreContext]

theorem codeSize_contextSwtich : codeSize contextSwtich = 123 := by decide +kernel

theorem ContextSwtichAt.of_placed {program : Program} {pc : Pc} (placed : Placed program pc contextSwtich) :
    ContextSwtichAt program pc := by
  simp only [contextSwtich_parts, placed_append, BitVec.add_assoc] at placed
  obtain ⟨saving, test, scheduler, switching, popping, enabling⟩ := placed
  have rjmp := test.2.1
  rw [BitVec.add_assoc] at rjmp
  exact ⟨saving, test.1, rjmp, scheduler, switching, popping, enabling⟩

/-- What the first half of a switch entered in `s` has done when it gets to the test in `t`. -/
structure Saves (s t : Cpu) : Prop where
  pc : t.pc = s.pc + 60
  sp : t.sp = s.sp - 33
  zero : t.regs 1 = 0
  i : t.sreg.i = s.sreg.i
  x : t.pointer .x = nextTaskSpAdr + 1
  chosen : t.regs 17 ++ t.regs 16 = readWord s.mem nextTaskSpAdr
  test : t.regs 18 = s.mem nextTaskSpAdr ||| s.mem (nextTaskSpAdr + 1)
  saved : ∀ ctx, Enters s ctx → SavedContext t.mem (s.sp - 33) ctx
  prev : readWord t.mem prevTaskSpAdr = s.sp - 33
  timer : t.mem timsk1 = s.mem timsk1 &&& ~~~2
  kept : ∀ a, a ∉ [taskSpAdr, taskSpAdr + 1, prevTaskSpAdr, prevTaskSpAdr + 1, timsk1] → 34 ≤ (s.sp - a).toNat →
    t.mem a = s.mem a

/-- An address in a frame whose bytes are clear is not a cell of the switch. -/
theorem Clear.ne {sp : Word} {n : Nat} (clear : Clear sp n) {a cell : Word} (inside : (sp - a).toNat < n)
    (member : cell ∈ switchCells) : a ≠ cell := by
  rintro rfl
  have := clear a member
  omega

theorem Clear.notMem {sp : Word} {n : Nat} (clear : Clear sp n) {a : Word} (inside : (sp - a).toNat < n)
    {cells : List Word} (among : cells ⊆ switchCells) : a ∉ cells :=
  fun member => clear.ne inside (among member) rfl

theorem Clear.frame {top : Word} (clear : Clear top 36) : Clear (top - 36 + 36) 36 := by
  rw [BitVec.sub_add_cancel]
  exact clear

/-- The first half of a switch leaves a frame alone that is away from its stack. -/
theorem Saves.frame_kept {e t : Cpu} {sp : Word} {ctx : Context} (half : Saves e t) (saved : SavedContext e.mem sp ctx)
    (framed : Clear (sp + 36) 36) (away : ∀ a, (sp + 36 - a).toNat < 36 → 34 ≤ (e.sp - a).toNat) :
    SavedContext t.mem sp ctx := by
  apply saved.congr
  intro a inside
  exact half.kept a (framed.notMem inside (by decide)) (away a inside)

theorem pushContext_mem (s : Cpu) :
    (execAll pushContext s).mem = pushBytes s.mem s.sp (registerBytes s.regs s.sreg) := by
  rw [execAll_pushContext]

/-- The pushes of `SAVE_CONTEXT` complete a frame that begins with three bytes of return address. -/
theorem pushContext_frame {s : Cpu} {address : List Byte} (three : address.length = 3)
    (pushed : ∀ k b, address[k]? = some b → s.mem (s.sp + 3 - BitVec.ofNat 16 k) = b) {k : Nat} {b : Byte}
    (entry : (address ++ registerBytes s.regs s.sreg)[k]? = some b) :
    (execAll pushContext s).mem (s.sp - 33 + 36 - BitVec.ofNat 16 k) = b := by
  rw [pushContext_mem]
  have bound : k < (address ++ registerBytes s.regs s.sreg).length := (List.getElem?_eq_some_iff.mp entry).1
  rw [List.length_append, three, registerBytes_length] at bound
  by_cases returnAddress : k < 3
  · have same : s.sp - 33 + 36 - BitVec.ofNat 16 k = s.sp + 3 - BitVec.ofNat 16 k := by bv_omega
    rw [same, pushBytes_outside]
    · apply pushed
      rwa [List.getElem?_append_left (three.symm ▸ returnAddress)] at entry
    · rw [registerBytes_length]
      bv_omega
  · have same : s.sp - 33 + 36 - BitVec.ofNat 16 k = s.sp - BitVec.ofNat 16 (k - 3) := by bv_omega
    rw [same]
    rw [List.getElem?_append_right (three.symm ▸ Nat.not_lt.mp returnAddress), three] at entry
    exact pushBytes_inside s.mem entry (by rw [registerBytes_length]; decide)

theorem pushContext_saved {s : Cpu} {ctx : Context} (enters : Enters s ctx) :
    SavedContext (execAll pushContext s).mem (s.sp - 33) ctx := by
  intro k b entry
  rw [Context.frame, ← enters.regs, ← enters.sreg] at entry
  exact pushContext_frame rfl enters.returns entry

/-- The state in which the first half of a switch masks the timer. -/
def contextSaved (s : Cpu) : Cpu :=
  execAll (saveSpToAdr prevTaskSpAdr) (execAll (saveSpToAdr taskSpAdr) (execAll pushContext s))

theorem contextSaved_mem (s : Cpu) :
    (contextSaved s).mem =
      writeWord (writeWord (execAll pushContext s).mem taskSpAdr (s.sp - 33)) prevTaskSpAdr (s.sp - 33) := by
  rw [contextSaved, (execAll_saveSpToAdr _ _).1, (execAll_saveSpToAdr _ _).1, (execAll_saveSpToAdr _ _).2.1,
    execAll_pushContext]

theorem contextSaved_sp (s : Cpu) : (contextSaved s).sp = s.sp - 33 := by
  rw [contextSaved, (execAll_saveSpToAdr _ _).2.1, (execAll_saveSpToAdr _ _).2.1, execAll_pushContext]

theorem contextSaved_zero (s : Cpu) : (contextSaved s).regs 1 = 0 := by
  rw [contextSaved, (execAll_saveSpToAdr _ _).2.2.2, (execAll_saveSpToAdr _ _).2.2.2, execAll_pushContext]
  rfl

theorem contextSaved_i (s : Cpu) : (contextSaved s).sreg.i = s.sreg.i := by
  rw [contextSaved, (execAll_saveSpToAdr _ _).2.2.1, (execAll_saveSpToAdr _ _).2.2.1, execAll_pushContext]
  rfl

/-- The stores of the two `SAVE_SP_TO_ADR` change only their variables. -/
theorem contextSaved_kept (s : Cpu) {a : Word}
    (other : a ∉ [taskSpAdr, taskSpAdr + 1, prevTaskSpAdr, prevTaskSpAdr + 1]) :
    (contextSaved s).mem a = (execAll pushContext s).mem a := by
  simp only [List.mem_cons, List.not_mem_nil, or_false, not_or] at other
  obtain ⟨task, taskHigh, prev, prevHigh⟩ := other
  rw [contextSaved_mem, writeWord_outside prev prevHigh, writeWord_outside task taskHigh]

/-- The context is complete before the timer is masked. -/
theorem contextSaved_saved {s : Cpu} {ctx : Context} (clear : Clear (s.sp + 3) 36) (enters : Enters s ctx) :
    SavedContext (contextSaved s).mem (s.sp - 33) ctx := by
  apply (pushContext_saved enters).congr
  intro a inside
  have frame : (s.sp + 3 - a).toNat < 36 := by bv_omega
  exact contextSaved_kept s (clear.notMem frame (by decide))

/-- The state in which the first half of a switch looks for a scheduled task: the timer is masked. -/
def timerMasked (s : Cpu) : Cpu := execAll scilentDisableMt (contextSaved s)

theorem execAll_savingCode (s : Cpu) : execAll savingCode s = execAll loadScheduledTask (timerMasked s) := by
  simp only [savingCode, saveContext, execAll_append, contextSaved, timerMasked]

section Saving

variable {s : Cpu} (clear : Clear (s.sp + 3) 37)
include clear

theorem clear_below {a : Word} (cell : a ∈ switchCells) : 34 ≤ (s.sp - a).toNat := by
  have := clear a cell
  bv_omega

theorem execAll_timerMasked :
    timerMasked s =
      { contextSaved s with
        sreg := (contextSaved s).sreg.logic ((contextSaved s).mem timsk1 &&& ~~~2)
        sp := s.sp - 33
        mem := Function.update (Function.update (contextSaved s).mem (s.sp - 33) ((contextSaved s).regs 16)) timsk1
          ((contextSaved s).mem timsk1 &&& ~~~2)
        pc := (contextSaved s).pc + 7 } := by
  have apart : (contextSaved s).sp ≠ timsk1 := by
    intro same
    have := clear_below clear (a := timsk1) (by decide)
    rw [contextSaved_sp] at same
    bv_omega
  rw [timerMasked, execAll_scilentDisableMt apart, contextSaved_sp]

theorem timerMasked_sp : (timerMasked s).sp = s.sp - 33 := by
  rw [execAll_timerMasked clear]

/-- Outside the frame, its scratch byte and the timer mask, memory is as it was saved. -/
theorem timerMasked_contextSaved {a : Word} (timer : a ≠ timsk1) (scratch : a ≠ s.sp - 33) :
    (timerMasked s).mem a = (contextSaved s).mem a := by
  rw [execAll_timerMasked clear]
  show Function.update (Function.update _ _ _) _ _ a = _
  rw [Function.update_of_ne timer, Function.update_of_ne scratch]

theorem timerMasked_kept {a : Word}
    (other : a ∉ [taskSpAdr, taskSpAdr + 1, prevTaskSpAdr, prevTaskSpAdr + 1, timsk1])
    (outside : 34 ≤ (s.sp - a).toNat) : (timerMasked s).mem a = s.mem a := by
  have timer : a ≠ timsk1 := by
    rintro rfl
    exact other (by decide)
  have scratch : a ≠ s.sp - 33 := by
    rintro rfl
    bv_omega
  have saved : a ∉ [taskSpAdr, taskSpAdr + 1, prevTaskSpAdr, prevTaskSpAdr + 1] := by
    intro member
    exact other (List.mem_append_left [timsk1] member)
  rw [timerMasked_contextSaved clear timer scratch, contextSaved_kept s saved, pushContext_mem,
    pushBytes_outside]
  rw [registerBytes_length]
  omega

theorem timerMasked_saved {ctx : Context} (enters : Enters s ctx) :
    SavedContext (timerMasked s).mem (s.sp - 33) ctx := by
  have fewer : Clear (s.sp + 3) 36 := fun a cell => Nat.le_of_succ_le (clear a cell)
  apply (contextSaved_saved fewer enters).congr
  intro a inside
  have frame : (s.sp + 3 - a).toNat < 36 := by bv_omega
  exact timerMasked_contextSaved clear (fewer.ne frame (by decide)) (by bv_omega)

theorem timerMasked_prev : readWord (timerMasked s).mem prevTaskSpAdr = s.sp - 33 := by
  have cell : ∀ a ∈ switchCells, a ≠ timsk1 → (timerMasked s).mem a = (contextSaved s).mem a := by
    intro a member timer
    apply timerMasked_contextSaved clear timer
    have := clear_below clear member
    bv_omega
  rw [readWord_congr (cell _ (by decide) (by decide)) (cell _ (by decide) (by decide)), contextSaved_mem,
    readWord_writeWord]

/-- **The first half of a switch.** -/
theorem saves : Saves s (execAll savingCode s) := by
  have code := execAll_savingCode s
  obtain ⟨mem, sp, i, zero, x, low, high, test⟩ := execAll_loadScheduledTask (timerMasked s)
  have nextLow : (timerMasked s).mem nextTaskSpAdr = s.mem nextTaskSpAdr :=
    timerMasked_kept clear (by decide) (clear_below clear (by decide))
  have nextHigh : (timerMasked s).mem (nextTaskSpAdr + 1) = s.mem (nextTaskSpAdr + 1) :=
    timerMasked_kept clear (by decide) (clear_below clear (by decide))
  have timer : (timerMasked s).mem timsk1 = s.mem timsk1 &&& ~~~2 := by
    have below : (registerBytes s.regs s.sreg).length ≤ (s.sp - timsk1).toNat :=
      Nat.le_of_succ_le (clear_below clear (by decide))
    rw [execAll_timerMasked clear]
    simp only [Function.update_self]
    rw [ contextSaved_kept s (by decide), pushContext_mem, pushBytes_outside _ below]
  rw [code]
  exact {
    pc := by
      rw [← code, execAll_pc]
      rfl
    sp := sp.trans (timerMasked_sp clear)
    zero := by
      rw [zero, execAll_timerMasked clear]
      exact contextSaved_zero s
    i := by
      rw [i, execAll_timerMasked clear]
      exact contextSaved_i s
    x := x
    chosen := by rw [low, high, nextLow, nextHigh, readWord]
    test := by rw [test, nextLow, nextHigh]
    saved := by
      intro ctx enters
      rw [mem]
      exact timerMasked_saved clear enters
    prev := by
      rw [mem]
      exact timerMasked_prev clear
    timer := by rw [mem, timer]
    kept := by
      intro a other outside
      rw [mem]
      exact timerMasked_kept clear other outside }

end Saving

/-- Memory after the second half of a switch chose `sp`. -/
def switchedMem (mem : Memory) (sp : Word) : Memory :=
  Function.update
    (Function.update
      (Function.update (Function.update (writeWord mem taskSpAdr sp) (nextTaskSpAdr + 1) 0) nextTaskSpAdr 0) 0x65 0)
    0x64 0

theorem switchedMem_kept {mem : Memory} {sp a : Word}
    (other : a ∉ [taskSpAdr, taskSpAdr + 1, nextTaskSpAdr, nextTaskSpAdr + 1, 0x65, 0x64]) :
    switchedMem mem sp a = mem a := by
  simp only [List.mem_cons, List.not_mem_nil, or_false, not_or] at other
  obtain ⟨task, taskHigh, next, nextHigh, high, low⟩ := other
  rw [switchedMem, Function.update_of_ne low, Function.update_of_ne high, Function.update_of_ne next,
    Function.update_of_ne nextHigh, writeWord_outside task taskHigh]

theorem readWord_switchedMem (mem : Memory) (sp : Word) : readWord (switchedMem mem sp) taskSpAdr = sp := by
  have low : switchedMem mem sp taskSpAdr = writeWord mem taskSpAdr sp taskSpAdr := rfl
  have high : switchedMem mem sp (taskSpAdr + 1) = writeWord mem taskSpAdr sp (taskSpAdr + 1) := rfl
  rw [readWord_congr low high, readWord_writeWord]

theorem readWord_switchedMem_next (mem : Memory) (sp : Word) : readWord (switchedMem mem sp) nextTaskSpAdr = 0 := by
  have low : switchedMem mem sp nextTaskSpAdr = 0 := rfl
  have high : switchedMem mem sp (nextTaskSpAdr + 1) = 0 := rfl
  rw [readWord, low, high]
  rfl

/-- Memory after `SCILENT_ENABLE_MT` ran behind it. -/
def enabledMem (mem : Memory) (sp : Word) (scratch : Byte) : Memory :=
  Function.update (Function.update (switchedMem mem sp) (sp + 33) scratch) timsk1 (mem timsk1 ||| 2)

theorem enabledMem_kept {mem : Memory} {sp a : Word} {scratch : Byte}
    (other : a ∉ [taskSpAdr, taskSpAdr + 1, nextTaskSpAdr, nextTaskSpAdr + 1, 0x65, 0x64]) (notTimer : a ≠ timsk1)
    (notScratch : a ≠ sp + 33) : enabledMem mem sp scratch a = mem a := by
  rw [enabledMem, Function.update_of_ne notTimer, Function.update_of_ne notScratch, switchedMem_kept other]

theorem execAll_switchingCode {s : Cpu} (x : s.pointer .x = nextTaskSpAdr + 1) (zero : s.regs 1 = 0) :
    (execAll switchingCode s).mem = switchedMem s.mem (s.regs 17 ++ s.regs 16) ∧
      (execAll switchingCode s).sp = s.regs 17 ++ s.regs 16 := by
  obtain ⟨mem, sp, sreg, zero⟩ := execAll_storeSelected x zero
  have switched : (execAll resetTimer (execAll storeSelected s)).mem = switchedMem s.mem (s.regs 17 ++ s.regs 16) := by
    rw [execAll_resetTimer zero, mem]
    rfl
  rw [switchingCode, execAll_append, execAll_append, (execAll_loadTaskSp _).1, (execAll_loadTaskSp _).2, switched,
    readWord_switchedMem]
  exact ⟨rfl, rfl⟩

/-- A saved context whose bytes are no cells of the switch survives its stores. -/
theorem SavedContext.switched {mem : Memory} {sp : Word} {ctx : Context} (h : SavedContext mem sp ctx)
    (clear : Clear (sp + 36) 36) (chosen : Word) : SavedContext (switchedMem mem chosen) sp ctx := by
  apply h.congr
  intro a inside
  exact switchedMem_kept (clear.notMem inside (by decide))

/-- The return address of a restored context survives `SCILENT_ENABLE_MT`. -/
theorem SavedContext.returns_enabled {mem : Memory} {sp : Word} {ctx : Context} (h : SavedContext mem sp ctx)
    (clear : Clear (sp + 36) 36) (scratch : Byte) : ReturnsTo (enabledMem mem sp scratch) (sp + 33) ctx.pc := by
  apply (h.switched clear sp).returns.congr
  intro a inside
  have notTimer : a ≠ timsk1 := clear.ne (by bv_omega) (by decide)
  have notScratch : a ≠ sp + 33 := by bv_omega
  rw [enabledMem, Function.update_of_ne notTimer, Function.update_of_ne notScratch]

/-- **The second half of a switch** takes the registers, the flags and the stack pointer from the
context saved at the chosen stack pointer. -/
theorem restores_context {s : Cpu} {ctx : Context} (x : s.pointer .x = nextTaskSpAdr + 1) (zero : s.regs 1 = 0)
    (saved : SavedContext s.mem (s.regs 17 ++ s.regs 16) ctx)
    (clear : Clear (s.regs 17 ++ s.regs 16 + 36) 36) :
    execAll popContext (execAll switchingCode s) =
      { regs := ctx.regs
        sreg := ctx.sreg
        sp := s.regs 17 ++ s.regs 16 + 33
        pc := s.pc + 50
        mem := switchedMem s.mem (s.regs 17 ++ s.regs 16) } := by
  obtain ⟨mem, sp⟩ := execAll_switchingCode x zero
  have frame : SavedContext (execAll switchingCode s).mem (execAll switchingCode s).sp ctx := by
    rw [mem, sp]
    exact saved.switched clear _
  rw [execAll_popContext frame, mem, sp, execAll_pc, BitVec.add_assoc]
  rfl

/-- Both bytes of a word are zero if the word is. -/
theorem or_eq_zero_iff_readWord {mem : Memory} {a : Word} :
    mem a ||| mem (a + 1) = 0 ↔ readWord mem a = 0 := by
  constructor
  · intro zero
    obtain ⟨low, high⟩ := BitVec.or_eq_zero_iff.mp zero
    rw [readWord, low, high]
    rfl
  · intro zero
    have low : mem a = lo8 (readWord mem a) := (lo8_append _ _).symm
    have high : mem (a + 1) = hi8 (readWord mem a) := (hi8_append _ _).symm
    rw [low, high, zero]
    rfl

/-! ## Running `CONTEXT_SWTICH` -/

section Running

variable {program : Program} {P : Instr → Cpu → Prop} {pc : Pc} {s t : Cpu}

theorem runs_saving (code : ContextSwtichAt program s.pc) (holds : ∀ i ∈ savingCode, ∀ c, P i c) :
    Runs program P 58 s (execAll savingCode s) := by
  apply Runs.block code.saving _ holds
  decide

/-- From the choice of a stack pointer to the restored context. -/
theorem runs_restoring {ctx : Context} {sp : Word} (code : ContextSwtichAt program pc) (start : s.pc = pc + 66)
    (x : s.pointer .x = nextTaskSpAdr + 1) (zero : s.regs 1 = 0) (chosen : s.regs 17 ++ s.regs 16 = sp)
    (saved : SavedContext s.mem sp ctx) (clear : Clear (sp + 36) 36)
    (holds : ∀ i ∈ switchingCode ++ popContext, ∀ c, P i c) :
    Runs program P 48 s
      { regs := ctx.regs, sreg := ctx.sreg, sp := sp + 33, pc := pc + 116, mem := switchedMem s.mem sp } := by
  subst chosen
  have restored := restores_context x zero saved clear
  rw [start, BitVec.add_assoc] at restored
  have middle : (execAll switchingCode s).pc = pc + 82 := by
    rw [execAll_pc, start, BitVec.add_assoc]
    rfl
  have first : Runs program P 14 s (execAll switchingCode s) := by
    apply Runs.block _ _ fun i member => holds i (List.mem_append_left _ member)
    · rw [start]
      exact code.switching
    · decide
  have second : Runs program P 34 (execAll switchingCode s) (execAll popContext (execAll switchingCode s)) := by
    apply Runs.block _ _ fun i member => holds i (List.mem_append_right _ member)
    · rw [middle]
      exact code.popping
    · decide
  rw [restored] at second
  exact first.trans second

/-- The same up to the instruction that restores the flags. -/
theorem runs_to_flags {ctx : Context} {sp : Word} (code : ContextSwtichAt program pc) (start : s.pc = pc + 66)
    (x : s.pointer .x = nextTaskSpAdr + 1) (zero : s.regs 1 = 0) (chosen : s.regs 17 ++ s.regs 16 = sp)
    (saved : SavedContext s.mem sp ctx) (clear : Clear (sp + 36) 36)
    (holds : ∀ i ∈ switchingCode ++ popRegisters, ∀ c, P i c) :
    ∃ u, Runs program P 46 s u ∧ program u.pc = some (.out .sreg 0) ∧ program (u.pc + 1) = some (.pop 0) ∧
      (Instr.pop 0).exec program ((Instr.out .sreg 0).exec program u) =
        { regs := ctx.regs, sreg := ctx.sreg, sp := sp + 33, pc := pc + 116, mem := switchedMem s.mem sp } := by
  subst chosen
  have placed : Placed program s.pc (switchingCode ++ popRegisters) ∧
      Placed program (s.pc + codeSize (switchingCode ++ popRegisters)) [.out .sreg 0, .pop 0] := by
    have size : pc + 66 + codeSize switchingCode = pc + 82 := by
      rw [BitVec.add_assoc]
      rfl
    have popping := code.popping
    rw [← size, popContext_parts, placed_append, BitVec.add_assoc (pc + 66), ← codeSize_append] at popping
    rw [start, placed_append]
    exact ⟨⟨code.switching, popping.1⟩, popping.2⟩
  have run := Runs.block (P := P) placed.1 (by decide) holds
  refine ⟨_, run, ?_, ?_, ?_⟩
  · rw [execAll_pc]
    exact placed.2.1
  · rw [execAll_pc]
    exact placed.2.2.1
  · have restored := restores_context x zero saved clear
    rw [popContext_parts, execAll_append, ← execAll_append switchingCode, start, BitVec.add_assoc] at restored
    rw [Instr.exec_straight rfl, Instr.exec_straight rfl]
    exact restored

/-- `SCILENT_ENABLE_MT` at the end of a switch. -/
theorem runs_enabling (code : ContextSwtichAt program pc) (start : s.pc = pc + 116) (apart : s.sp ≠ timsk1)
    (holds : ∀ i ∈ scilentEnableMt, ∀ c, P i c) :
    Runs program P 5 s
      { s with
        sreg := s.sreg.logic (s.mem timsk1 ||| 2)
        mem := Function.update (Function.update s.mem s.sp (s.regs 16)) timsk1 (s.mem timsk1 ||| 2)
        pc := pc + 123 } := by
  have enabled := execAll_scilentEnableMt apart
  rw [start, BitVec.add_assoc] at enabled
  have block : Runs program P 5 s (execAll scilentEnableMt s) := by
    apply Runs.block _ _ holds
    · rw [start]
      exact code.enabling
    · decide
  rwa [enabled] at block

/-- From the choice of a stack pointer to the end of `CONTEXT_SWTICH`. -/
theorem runs_resuming {ctx : Context} {sp : Word} (code : ContextSwtichAt program pc) (start : s.pc = pc + 66)
    (x : s.pointer .x = nextTaskSpAdr + 1) (zero : s.regs 1 = 0) (chosen : s.regs 17 ++ s.regs 16 = sp)
    (saved : SavedContext s.mem sp ctx) (clear : Clear (sp + 36) 36)
    (holds : ∀ i ∈ switchingCode ++ popContext ++ scilentEnableMt, ∀ c, P i c) :
    Runs program P 53 s
      { regs := ctx.regs
        sreg := ctx.sreg.logic (s.mem timsk1 ||| 2)
        sp := sp + 33
        pc := pc + 123
        mem := enabledMem s.mem sp (ctx.regs 16) } := by
  have restoring := runs_restoring code start x zero chosen saved clear fun i member =>
    holds i (List.mem_append_left _ member)
  have notTimer : sp + 33 ≠ timsk1 := clear.ne (by bv_omega) (by decide)
  have enabling := runs_enabling code
    (s := { regs := ctx.regs, sreg := ctx.sreg, sp := sp + 33, pc := pc + 116, mem := switchedMem s.mem sp })
    rfl notTimer fun i member => holds i (List.mem_append_right _ member)
  have timer : switchedMem s.mem sp timsk1 = s.mem timsk1 := switchedMem_kept (by decide)
  simp only [timer] at enabling
  exact restoring.trans enabling

end Running

end Simplos
