import Simplos.Switch.Located

/-!
# The start of the scheduler

`SET_RETURN_POINT` leaves the return address of the jump to `scheduler_loop_entry_point` on the stack. With
`SAVE_CONTEXT` behind it a complete context of the scheduler lies there before the scheduler was ever left.
-/

namespace Simplos
set_option autoImplicit false
open Avr

/-! ## `SAVE_CONTEXT` -/

section

variable {program : Program} {P : Instr → Cpu → Prop} {F : Word → Prop} {s : Cpu}

/-- `SAVE_SP_TO_ADR` touches only its variable, all the way. -/
theorem runs_saveSpToAdr {adr : Word} (placed : Placed program s.pc (saveSpToAdr adr))
    (holds : ∀ i ∈ saveSpToAdr adr, ∀ c, (∀ a, a ≠ adr → a ≠ adr + 1 → c.mem a = s.mem a) → P i c) :
    Runs program P 6 s (execAll (saveSpToAdr adr) s) := by
  obtain ⟨low, high, readLow, storeLow, readHigh, storeHigh, -⟩ := placed
  have stored : ∀ a b, a ≠ adr → Function.update s.mem (hi8 adr ++ lo8 adr) b a = s.mem a := by
    intro a b other
    rw [hi8_append_lo8, Function.update_of_ne other]
  refine .next low (holds _ (by simp [saveSpToAdr]) _ fun _ _ _ => rfl) <|
    .next high (holds _ (by simp [saveSpToAdr]) _ fun _ _ _ => rfl) <|
    .next readLow (holds _ (by simp [saveSpToAdr]) _ fun _ _ _ => rfl) <|
    .next storeLow (holds _ (by simp [saveSpToAdr]) _ fun _ _ _ => rfl) <|
    .next readHigh (holds _ (by simp [saveSpToAdr]) _ fun a other _ => stored a _ other) <|
    .next storeHigh (holds _ (by simp [saveSpToAdr]) _ fun a other _ => stored a _ other) <| .refl _

/-- `SAVE_CONTEXT` completes the context `ctx` and touches no address in `F`, away from the stack pointer, all
the way. -/
theorem runs_saveContext {ctx : Context} (placed : Placed program s.pc saveContext) (enters : Enters s ctx)
    (clear : Clear (s.sp + 3) 36)
    (far : ∀ a, F a → 35 ≤ (s.sp - a).toNat ∧ (s.sp - a).toNat + 35 < 2 ^ 16)
    (other : ∀ a, F a → a ≠ taskSpAdr ∧ a ≠ taskSpAdr + 1)
    (holds : ∀ i ∈ saveContext, ∀ c, (∀ a, F a → c.mem a = s.mem a) → P i c) :
    ∃ t, Runs program P 41 s t ∧ t.pc = s.pc + codeSize saveContext ∧ t.sp = s.sp - 33 ∧
      SavedContext t.mem (s.sp - 33) ctx ∧ ∀ a, F a → t.mem a = s.mem a := by
  rw [saveContext, placed_append] at placed
  obtain ⟨pushing, savingTask⟩ := placed
  have pushes : Runs program P pushContext.length s (execAll pushContext s) :=
    Runs.stack pushing (by decide) far fun i member => holds i (List.mem_append_left _ member)
  have frame := pushContext_saved enters
  have sp : (execAll pushContext s).sp = s.sp - 33 := by rw [execAll_pushContext]
  have kept : ∀ a, F a → (execAll pushContext s).mem a = s.mem a := by
    intro a away
    have pushed : (registerBytes s.regs s.sreg).length ≤ (s.sp - a).toNat := by
      rw [registerBytes_length]
      have := (far a away).1
      omega
    rw [pushContext_mem, pushBytes_outside _ pushed]
  have pc := execAll_pc pushContext s
  generalize execAll pushContext s = c at pushes frame sp kept pc
  rw [← pc] at savingTask
  have saving : Runs program P 6 c (execAll (saveSpToAdr taskSpAdr) c) :=
    runs_saveSpToAdr savingTask fun i member d same => holds i (List.mem_append_right _ member) d fun a away =>
      (same a (other a away).1 (other a away).2).trans (kept a away)
  obtain ⟨mem, stack, -, -⟩ := execAll_saveSpToAdr taskSpAdr c
  refine ⟨_, pushes.trans saving, ?_, stack.trans sp, ?_, ?_⟩
  · rw [execAll_pc, pc, saveContext, codeSize_append, BitVec.add_assoc]
  · rw [mem]
    apply frame.congr
    intro a inside
    have covered : (s.sp + 3 - a).toNat < 36 := by
      have same : s.sp - 33 + 36 = s.sp + 3 := by bv_omega
      rwa [same] at inside
    exact writeWord_outside (clear.ne covered (by decide)) (clear.ne covered (by decide))
  · intro a away
    rw [mem, writeWord_outside (other a away).1 (other a away).2, kept a away]

end

/-! ## The first context of the scheduler -/

/-- `first` is the context that `SET_RETURN_POINT`, entered in `s`, leaves to `SAVE_CONTEXT`: its registers and flags
are those behind the macro, and it returns to the jump the macro skips. -/
def FirstContext (image : SchedulerImage) (s : Cpu) (first : Context) : Prop :=
  ∃ c, steps image.program 14 s = some c ∧ SetsReturnPoint s c ∧ first = ⟨c.regs, c.sreg, image.startAdr + 13⟩

/-- What `start_scheduler` has done, entered at `SET_RETURN_POINT` in `s`, when it gets to its loop in
`t`: its context `first` is complete, it returns to the jump to `scheduler_loop_entry_point`. -/
structure Starts (image : SchedulerImage) (s : Cpu) (first : Context) (t : Cpu) : Prop where
  context : FirstContext image s first
  pc : t.pc = image.startAdr + 63
  stack : t.sp = s.sp - 36
  returns : first.pc = image.startAdr + 13
  saved : SavedContext t.mem (s.sp - 36) first
  scheduler : readWord t.mem schedulerTaskSpAdr = s.sp - 36
  masked : Masked t.mem

/-- **The start of the scheduler** saves its context and stores the stack pointer it does so at, with the
timer masked all the way. -/
theorem runs_start (image : SchedulerImage) {s : Cpu} (start : s.pc = image.startAdr) (room : Room s.sp 73)
    (masked : Masked s.mem) :
    ∃ first t, Runs image.program (fun i c => Masked c.mem ∧ i ∉ [.sei, .rjmp 1]) 61 s t ∧ Starts image s first t := by
  have below := room.sram
  have keepsMasked : ∀ {c : Cpu}, (∀ a, a = timsk1 → c.mem a = s.mem a) → Masked c.mem := by
    intro c same
    rw [Masked, same timsk1 rfl]
    exact masked
  have far : ∀ a, a = timsk1 → 16 ≤ (s.sp - a).toNat ∧ (s.sp - a).toNat + 16 < 2 ^ 16 := by
    rintro a rfl
    rw [timsk1]
    bv_omega
  have sized : s.pc.toNat + 13 < 2 ^ 17 := by
    rw [start]
    have := image.fits
    omega
  have plain : ∀ i ∈ setReturnPoint (image.startAdr + 64), i ∉ [.sei, .rjmp 1] := by simp [setReturnPoint]
  have placed : Placed image.program s.pc (setReturnPoint (image.startAdr + 64)) := by
    rw [start]
    exact image.start_parts.1
  obtain ⟨c, returning, sets⟩ :=
    runs_setReturnPoint (P := fun i c => Masked c.mem ∧ i ∉ [.sei, .rjmp 1]) placed far
      fun i member c same => ⟨keepsMasked same, plain i member⟩
  have timer : c.mem timsk1 = s.mem timsk1 := sets.kept timsk1 (by have := (far timsk1 rfl).1; omega)
  have stack : c.sp - 33 = s.sp - 36 := by
    rw [sets.sp]
    bv_omega
  have top : c.sp + 3 = s.sp := by rw [sets.sp, BitVec.sub_add_cancel]
  have placed := image.start_parts.2.1
  rw [placed_append, ← start, ← sets.pc] at placed
  obtain ⟨savingContext, savingScheduler⟩ := placed
  have enters : Enters c ⟨c.regs, c.sreg, image.startAdr + 13⟩ := ⟨rfl, rfl, start ▸ sets.returnsTo sized⟩
  obtain ⟨f, saving, pc_f, sp_f, frame, timer_f⟩ :=
    runs_saveContext (P := fun i c => Masked c.mem ∧ i ∉ [.sei, .rjmp 1]) (F := fun a => a = timsk1) savingContext enters
      (top ▸ fun a cell => Nat.le_trans (by decide) (room.clear a cell))
      (by
        rintro a rfl
        rw [sets.sp, timsk1]
        bv_omega)
      (fun a here => here ▸ by decide)
      fun i member d same => ⟨keepsMasked fun a here => (same a here).trans (here ▸ timer), by revert i; decide⟩
  rw [stack] at sp_f frame
  have timer_f : f.mem timsk1 = s.mem timsk1 := (timer_f timsk1 rfl).trans timer
  rw [← pc_f] at savingScheduler
  have storing : Runs image.program (fun i c => Masked c.mem ∧ i ∉ [.sei, .rjmp 1]) 6 f
      (execAll (saveSpToAdr schedulerTaskSpAdr) f) :=
    runs_saveSpToAdr savingScheduler fun i member d same =>
      ⟨keepsMasked fun a here => (same a (here ▸ by decide) (here ▸ by decide)).trans (here ▸ timer_f),
        by revert i; decide⟩
  obtain ⟨memSched, spSched, -, -⟩ := execAll_saveSpToAdr schedulerTaskSpAdr f
  rw [sp_f] at memSched
  refine ⟨⟨c.regs, c.sreg, image.startAdr + 13⟩, _, returning.trans (saving.trans storing),
    ⟨c, returning.steps, sets, rfl⟩, ?_, ?_, rfl, ?_, ?_, ?_⟩
  · rw [execAll_pc, pc_f, sets.pc, start]
    simp only [BitVec.add_assoc]
    rfl
  · rw [spSched, sp_f]
  · rw [memSched]
    apply frame.congr
    intro a inside
    rw [BitVec.sub_add_cancel] at inside
    have clear : Clear s.sp 36 := fun a cell => Nat.le_trans (by decide) (room.clear a cell)
    exact writeWord_outside (clear.ne inside (by decide)) (clear.ne inside (by decide))
  · rw [memSched, readWord_writeWord]
  · rw [Masked, memSched, writeWord_outside (by decide) (by decide), timer_f]
    exact masked

theorem starts (image : SchedulerImage) {s : Cpu} (start : s.pc = image.startAdr) (room : Room s.sp 73)
    (masked : Masked s.mem) : ∃ first t, steps image.program 61 s = some t ∧ Starts image s first t := by
  obtain ⟨first, t, run, starts⟩ := runs_start image start room masked
  exact ⟨first, t, run.steps, starts⟩

/-- The machine at the first entry of the scheduler's loop. -/
def started (t : Cpu) (pending : Bool) : Machine where
  cpu := t
  pending := pending
  shadow := false
  phase := .scheduling
  rounds := 0
  loopSp := t.sp
  taskLeft := none
  schedulerLeft := none

theorem exec_andi_masked (program : Program) (c : Cpu) :
    (((Instr.andi 16 (~~~(1 <<< ocie1a))).exec program c).regs 16).getLsbD ocie1a = false := by
  rw [Instr.exec_straight rfl]
  simp [Instr.effect, Cpu.setLogic, Cpu.setReg, ocie1a]

theorem exec_sts_masked {program : Program} {c : Cpu} (bit : (c.regs 16).getLsbD ocie1a = false) :
    Masked ((Instr.sts timsk1 16).exec program c).mem := by
  rw [Instr.exec_straight rfl]
  show (Function.update c.mem timsk1 (c.regs 16) timsk1).getLsbD ocie1a = false
  rw [Function.update_self]
  exact bit

/-- **The first pass of the loop** runs to the end of its prologue with the timer masked all the way. -/
theorem heading_prologue {image : SchedulerImage} {s t : Cpu} {first : Context} (starts : Starts image s first t)
    (room : Room s.sp 73) :
    Heading image (fun i c => Quiet .scheduling i ∧ Masked c.mem)
      (fun u => u.pc = image.startAdr + 72 ∧ LoopState s.sp first 0 none (u.sp + 1) u.mem) t := by
  have code := image.loopCode
  have onStack : ∀ a ∈ switchCells, a ≠ t.sp := by
    rintro a cell rfl
    have := room.clear t.sp cell
    rw [starts.stack] at this
    bv_omega
  have cell : ∀ {a} {b c : Byte}, a ∈ switchCells → a ≠ timsk1 →
      Function.update (Function.update t.mem t.sp b) timsk1 c a = t.mem a := by
    intro a b c member notTimer
    rw [Function.update_of_ne notTimer, Function.update_of_ne (onStack a member)]
  have pushed : Masked (Function.update t.mem t.sp (t.regs 16)) := by
    rw [Masked, Function.update_of_ne (onStack timsk1 (by decide))]
    exact starts.masked
  have nop : image.program (t.pc + 1 + 1) = some .nop := by
    rw [starts.pc]
    simp only [BitVec.add_assoc]
    exact code.nop
  have push : image.program (t.pc + 1 + 1 + 1) = some (.push 16) := by
    rw [starts.pc]
    simp only [BitVec.add_assoc]
    exact code.push
  have lds : image.program (t.pc + 1 + 1 + 1 + 1) = some (.lds 16 timsk1) := by
    rw [starts.pc]
    simp only [BitVec.add_assoc]
    exact code.lds
  have andi : image.program (t.pc + 1 + 1 + 1 + 1 + 2) = some (.andi 16 (~~~(1 <<< ocie1a))) := by
    rw [starts.pc]
    simp only [BitVec.add_assoc]
    exact code.andi
  have sts : image.program (t.pc + 1 + 1 + 1 + 1 + 2 + 1) = some (.sts timsk1 16) := by
    rw [starts.pc]
    simp only [BitVec.add_assoc]
    exact code.sts
  refine ⟨6, _, .next (i := .rjmp 1) (starts.pc ▸ code.rjmp) ⟨by decide, starts.masked⟩ <|
    .next nop ⟨by decide, starts.masked⟩ <| .next push ⟨by decide, starts.masked⟩ <|
    .next lds ⟨by decide, pushed⟩ <| .next andi ⟨by decide, pushed⟩ <| .next sts ⟨by decide, pushed⟩ <|
    .refl _, ?_, ?_, ?_, ?_, ?_⟩
  · show t.pc + 1 + 1 + 1 + 1 + 2 + 1 + 2 = _
    rw [starts.pc]
    simp only [BitVec.add_assoc]
    rfl
  · exact exec_sts_masked (exec_andi_masked _ _)
  · exact (readWord_congr (cell (by decide) (by decide)) (cell (by decide) (by decide))).trans starts.scheduler
  · intro e left
    cases left
  · refine .inl ⟨rfl, ?_, ?_⟩
    · show t.sp - 1 + 1 = _
      rw [BitVec.sub_add_cancel, starts.stack]
    · apply starts.saved.congr
      intro a inside
      rw [BitVec.sub_add_cancel] at inside
      have notTimer : a ≠ timsk1 := by
        rintro rfl
        have := room.clear timsk1 (by decide)
        omega
      have notStack : a ≠ t.sp := by
        rintro rfl
        rw [starts.stack] at inside
        bv_omega
      show Function.update (Function.update t.mem t.sp _) timsk1 _ a = _
      rw [Function.update_of_ne notTimer, Function.update_of_ne notStack]

theorem started_located {image : SchedulerImage} {s t : Cpu} {first : Context} (pending : Bool)
    (starts : Starts image s first t) (room : Room s.sp 73) : Located image s.sp first (started t pending) :=
  .scheduling rfl (.prologue (heading_prologue starts room))

end Simplos
