import Simplos.Avr.Loading
import Simplos.Switch.Selection

/-!
# Preemption

A task that was interrupted by `TIMER1_COMPA` is resumed by the `k_yield` of the scheduler: the
context saved in one function is restored in another. Registers, stack pointer and program counter
come back exactly. `SCILENT_ENABLE_MT` runs after the flags were restored and overwrites four of them.
-/

namespace Simplos
set_option autoImplicit false
open Avr

/-- A program that contains the context switch: the vector of `TIMER1_COMPA`, its handler, `k_yield`. -/
structure Image where
  program : Program
  timer1CompaVectAdr : Pc
  kYieldAdr : Pc
  vector : Placed program timer1CompaVector [.jmp timer1CompaVectAdr]
  handler : Placed program timer1CompaVectAdr timer1CompaVect
  yields : Placed program kYieldAdr kYield

namespace Image

variable (image : Image)

theorem handler_switch : ContextSwtichAt image.program image.timer1CompaVectAdr :=
  .of_placed (placed_append.mp image.handler).1

theorem handler_reti : image.program (image.timer1CompaVectAdr + 123) = some .reti := by
  have placed := (placed_append.mp image.handler).2.1
  rwa [codeSize_contextSwtich] at placed

theorem kYield_parts : ContextSwtichAt image.program (image.kYieldAdr + 1) ∧
    Placed image.program (image.kYieldAdr + 1 + 123) [.sei, .ret] := by
  have placed := image.yields
  rw [kYield, List.append_assoc, placed_append, placed_append, codeSize_contextSwtich] at placed
  exact ⟨.of_placed placed.2.1, placed.2.2⟩

theorem kYield_cli : image.program image.kYieldAdr = some .cli := (placed_append.mp image.yields).1.1

theorem kYield_sei : image.program (image.kYieldAdr + 1 + 123) = some .sei := image.kYield_parts.2.1

theorem kYield_ret : image.program (image.kYieldAdr + 1 + 123 + 1) = some .ret := image.kYield_parts.2.2.1

end Image

/-! ## Saving in the handler -/

/-- `sp` has room for `n` bytes: they lie in SRAM and are no cells of the switch. -/
structure Room (sp : Word) (n : Nat) : Prop where
  sram : 0x200 + n ≤ sp.toNat + 1
  clear : Clear sp n

theorem Room.mono {sp : Word} {k n : Nat} (room : Room sp n) (fewer : k ≤ n) : Room sp k where
  sram := by
    have := room.sram
    omega
  clear a cell := Nat.le_trans fewer (room.clear a cell)

/-- The context a task is interrupted in. Taking the interrupt clears the interrupt flag. -/
def preemptedContext (s : Cpu) : Context := ⟨s.regs, { s.sreg with i := false }, s.pc⟩

/-- The handler's first state behind the vector. -/
def handlerEntered (image : Image) (s : Cpu) : Cpu :=
  { s.interrupt timer1CompaVector with pc := image.timer1CompaVectAdr }

theorem handlerEntered_enters (image : Image) (s : Cpu) : Enters (handlerEntered image s) (preemptedContext s) where
  regs := rfl
  sreg := rfl
  returns := .pushed s.mem s.sp s.pc

theorem runs_handlerSaved (image : Image) (s : Cpu) :
    Runs image.program (fun _ _ => True) 48 (s.interrupt timer1CompaVector)
      (contextSaved (handlerEntered image s)) := by
  have jumped : Runs image.program (fun _ _ => True) 1 (s.interrupt timer1CompaVector) (handlerEntered image s) :=
    .one (i := .jmp image.timer1CompaVectAdr) image.vector.1 trivial
  have placed : Placed image.program (handlerEntered image s).pc (saveContext ++ saveSpToAdr prevTaskSpAdr) := by
    have saving := image.handler_switch.saving
    rw [savingCode, List.append_assoc] at saving
    exact (placed_append.mp saving).1
  have block := Runs.block (P := fun _ _ => True) placed (by decide) fun _ _ _ => trivial
  rw [saveContext, execAll_append, execAll_append] at block
  exact jumped.trans block

/-! ## Resuming in `k_yield` -/

/-- The flags a resumed context ends up with: `SCILENT_ENABLE_MT` stored `timer` to `TIMSK1` after they
were restored. -/
def Context.resumedFlags (ctx : Context) (timer : Byte) : Sreg := { ctx.sreg.logic timer with i := true }

theorem resumedFlags_z (ctx : Context) (timer : Byte) : (ctx.resumedFlags timer).z = decide (timer = 0) := rfl

/-- **`k_yield` resumes the context saved at the scheduled stack pointer**, up to the flags. -/
theorem kYield_resumes (image : Image) {y : Cpu} {sp : Word} {ctx : Context} (start : y.pc = image.kYieldAdr)
    (clear : Clear (y.sp + 3) 37) (scheduled : readWord y.mem nextTaskSpAdr = sp) (nonzero : sp ≠ 0)
    (saved : SavedContext y.mem sp ctx) (framed : Clear (sp + 36) 36)
    (apart : ∀ a, (sp + 36 - a).toNat < 36 → 37 ≤ (y.sp + 3 - a).toNat) :
    ∃ f, Runs image.program (fun _ _ => True) 116 y f ∧ f.regs = ctx.regs ∧ f.sp = sp + 36 ∧ f.pc = ctx.pc ∧
      f.sreg = ctx.resumedFlags ((y.mem timsk1 &&& ~~~2) ||| 2) := by
  let y₁ : Cpu := { y with sreg := { y.sreg with i := false }, pc := image.kYieldAdr + 1 }
  have code : ContextSwtichAt image.program y₁.pc := image.kYield_parts.1
  have masking : Runs image.program (fun _ _ => True) 1 y y₁ := by
    have one := Runs.one (P := fun _ _ => True) (start ▸ image.kYield_cli) trivial
    rwa [Instr.exec_straight rfl, start] at one
  -- the first half saves the scheduler's own context, away from the frame
  obtain ⟨t, saving, half⟩ : ∃ t, Runs image.program (fun _ _ => True) 58 y₁ t ∧ Saves y₁ t :=
    ⟨_, runs_saving code fun _ _ _ => trivial, saves clear⟩
  have chosen : readWord y₁.mem nextTaskSpAdr ≠ 0 := by
    rw [scheduled]
    exact nonzero
  have selecting := runs_select_task (P := fun _ _ => True) code half chosen (fun _ => trivial) fun _ => trivial
  have frame : SavedContext t.mem sp ctx := by
    apply half.frame_kept saved framed
    intro a inside
    have := apart a inside
    show 34 ≤ (y.sp - a).toNat
    bv_omega
  -- the second half restores the frame
  have resuming := runs_resuming (P := fun _ _ => True) (s := { t with pc := y₁.pc + 66 }) code rfl half.x half.zero
    (half.chosen.trans scheduled) frame framed fun _ _ _ => trivial
  let w : Cpu :=
    { regs := ctx.regs
      sreg := ctx.sreg.logic (t.mem timsk1 ||| 2)
      sp := sp + 33
      pc := y₁.pc + 123
      mem := enabledMem t.mem sp (ctx.regs 16) }
  have setting := Runs.one (P := fun _ _ => True) (s := w) (i := .sei) image.kYield_sei trivial
  have returning := Runs.one (P := fun _ _ => True) (s := Instr.sei.exec image.program w) (i := .ret)
    image.kYield_ret trivial
  have timer : t.mem timsk1 = y.mem timsk1 &&& ~~~2 := half.timer
  have returns : ReturnsTo w.mem (sp + 33) ctx.pc := frame.returns_enabled framed _
  refine ⟨_, masking.trans (saving.trans (selecting.trans (resuming.trans (setting.trans returning)))),
    rfl, ?_, returns.returnAddress, ?_⟩
  · show sp + 33 + 3 = sp + 36
    rw [BitVec.add_assoc]
    rfl
  · rw [← timer]
    rfl

/-! ## From the interrupt to the resumption -/

/-- `y` is a state in which `k_yield` is called to resume the frame that is complete in `z`: whatever
ran in between left its bytes alone, it is scheduled, and the caller's own stack is elsewhere. -/
structure CallsToResume (image : Image) (z y : Cpu) : Prop where
  pc : y.pc = image.kYieldAdr
  scheduled : readWord y.mem nextTaskSpAdr = z.sp
  kept : ∀ a, (z.sp + 36 - a).toNat < 36 → y.mem a = z.mem a
  room : Room (y.sp + 3) 37
  apart : ∀ a, (z.sp + 36 - a).toNat < 36 → 37 ≤ (y.sp + 3 - a).toNat

theorem handlerSaved_sp (image : Image) (s : Cpu) : (contextSaved (handlerEntered image s)).sp = s.sp - 36 := by
  rw [contextSaved_sp]
  show s.sp - 3 - 33 = s.sp - 36
  bv_omega

theorem handlerSaved_prev (image : Image) (s : Cpu) :
    readWord (contextSaved (handlerEntered image s)).mem prevTaskSpAdr = s.sp - 36 := by
  rw [contextSaved_mem, readWord_writeWord, ← contextSaved_sp, handlerSaved_sp]

/-- The registers, the stack pointer and the program counter come back, the flags up to four. -/
theorem preempted_task_resumes (image : Image) {s y : Cpu} (room : Room s.sp 36)
    (calls : CallsToResume image (contextSaved (handlerEntered image s)) y) :
    ∃ f, Runs image.program (fun _ _ => True) 116 y f ∧ f.regs = s.regs ∧ f.sp = s.sp ∧ f.pc = s.pc ∧
      f.sreg = (preemptedContext s).resumedFlags ((y.mem timsk1 &&& ~~~2) ||| 2) := by
  have top : (handlerEntered image s).sp + 3 = s.sp := BitVec.sub_add_cancel s.sp 3
  have back : s.sp - 36 + 36 = s.sp := BitVec.sub_add_cancel s.sp 36
  have clear : Clear ((handlerEntered image s).sp + 3) 36 := by
    rw [top]
    exact room.clear
  have saved := contextSaved_saved clear (handlerEntered_enters image s)
  rw [← contextSaved_sp, handlerSaved_sp] at saved
  have kept := calls.kept
  have apart := calls.apart
  rw [handlerSaved_sp] at kept apart
  have nonzero : s.sp - 36 ≠ 0 := by
    have := room.sram
    bv_omega
  obtain ⟨f, runs, regs, sp, pc, sreg⟩ := kYield_resumes image calls.pc calls.room.clear
    (calls.scheduled.trans (handlerSaved_sp image s)) nonzero (saved.congr kept) (by rw [back]; exact room.clear) apart
  exact ⟨f, runs, regs, sp.trans back, pc, sreg⟩

/-- The byte `SCILENT_ENABLE_MT` stores has its enable bit set. -/
theorem enabled_timer_ne_zero (timer : Byte) : ((timer &&& ~~~2) ||| 2) ≠ 0 := by
  intro zero
  have bit := congrArg (fun b => b.getLsbD 1) zero
  simp at bit

/-- The flags that are lost are `s`, `v`, `n` and `z`. -/
theorem resumedFlags_eq_iff {s : Cpu} (taken : s.sreg.i = true) (timer : Byte) :
    (preemptedContext s).resumedFlags ((timer &&& ~~~2) ||| 2) = s.sreg ↔
      s.sreg.z = false ∧ s.sreg.v = false ∧ s.sreg.n = timer.msb ∧ s.sreg.s = timer.msb := by
  have top : (253#8).msb = true ∧ (2#8).msb = false := by decide
  have msb : ((timer &&& ~~~2) ||| 2).msb = timer.msb := by simp [top]
  rw [Context.resumedFlags, Sreg.logic, msb, decide_eq_false (enabled_timer_ne_zero timer), Sreg.ext_iff]
  simp only [preemptedContext, taken]
  constructor
  · rintro ⟨-, -, -, s, v, n, z, -⟩
    exact ⟨z.symm, v.symm, n.symm, s.symm⟩
  · rintro ⟨z, v, n, s⟩
    exact ⟨trivial, trivial, trivial, s.symm, v.symm, n.symm, z.symm, trivial⟩

/-- **Preemption is transparent up to the flags**, and to the flags exactly when `z` and `v` were
clear and `n` and `s` were the top bit of `TIMSK1`. Taken in `s`, the interrupt saves the context in 48
steps; from any later call of `k_yield` that schedules it, 116 steps resume the task. -/
theorem preemption_transparent_iff (image : Image) (s : Cpu) (taken : s.sreg.i = true) (room : Room s.sp 36) :
    ∃ z, steps image.program 48 (s.interrupt timer1CompaVector) = some z ∧
      z.sp = s.sp - 36 ∧ readWord z.mem prevTaskSpAdr = z.sp ∧
      ∀ y, CallsToResume image z y →
        ∃ f, steps image.program 116 y = some f ∧ f.regs = s.regs ∧ f.sp = s.sp ∧ f.pc = s.pc ∧
          (f.sreg = s.sreg ↔
            s.sreg.z = false ∧ s.sreg.v = false ∧ s.sreg.n = (y.mem timsk1).msb ∧ s.sreg.s = (y.mem timsk1).msb) := by
  refine ⟨_, (runs_handlerSaved image s).steps, handlerSaved_sp image s, ?_, ?_⟩
  · rw [handlerSaved_prev, handlerSaved_sp]
  · intro y calls
    obtain ⟨f, runs, regs, sp, pc, sreg⟩ := preempted_task_resumes image room calls
    refine ⟨f, runs.steps, regs, sp, pc, ?_⟩
    rw [sreg]
    exact resumedFlags_eq_iff taken _

/-! ### A task preempted at a compare -/

/-- The vector, the handler and `k_yield`, loaded over any other code, are placed. -/
theorem placed_handlers (rest : Program) :
    let program := load timer1CompaVector [.jmp 0x100] (load 0x100 timer1CompaVect (load 0x200 kYield rest))
    Placed program timer1CompaVector [.jmp 0x100] ∧ Placed program 0x100 timer1CompaVect ∧ Placed program 0x200 kYield := by
  have vector : words [.jmp 0x100] ≤ 2 ^ 17 := by decide
  have handler : words timer1CompaVect ≤ 2 ^ 17 := by decide +kernel
  have yields : words kYield ≤ 2 ^ 17 := by decide +kernel
  refine ⟨placed_load vector, (placed_load handler).load ?_, ((placed_load yields).load ?_).load ?_⟩ <;> decide +kernel

/-- Code apart from them stays placed below the handlers. -/
theorem placed_under_handlers {rest : Program} {pc : Pc} {code : List Instr} (h : Placed rest pc code)
    (apart : ∀ seg ∈ [(timer1CompaVector, [.jmp 0x100]), (0x100, timer1CompaVect), (0x200, kYield)], Apart seg (pc, code)) :
    Placed (load timer1CompaVector [.jmp 0x100] (load 0x100 timer1CompaVect (load 0x200 kYield rest))) pc code :=
  h.loadAll apart

/-- The vector, the handler at 0x100 and `k_yield` at 0x200. -/
def sampleImage : Image where
  program :=
    load timer1CompaVector [.jmp 0x100] (load 0x100 timer1CompaVect (load 0x200 kYield fun _ => none))
  timer1CompaVectAdr := 0x100
  kYieldAdr := 0x200
  vector := (placed_handlers _).1
  handler := (placed_handlers _).2.1
  yields := (placed_handlers _).2.2

/-- A task in its own block; it has just compared two registers. -/
def comparingTask (equal : Bool) : Cpu where
  regs r := BitVec.ofNat 8 r.val
  sreg := ⟨true, false, false, false, false, false, equal, false⟩
  sp := 0x800
  pc := 0x400
  mem _ := 0

/-- The scheduler calls `k_yield` for the frame at `z.sp`; its own stack is elsewhere and nothing else
of memory was kept. -/
def schedulerCall (image : Image) (z : Cpu) : Cpu :=
  { z with
    pc := image.kYieldAdr
    sp := 0x1000
    mem := writeWord (fun a => if (z.sp + 36 - a).toNat < 36 then z.mem a else 0) nextTaskSpAdr z.sp }

theorem schedulerCall_mem (image : Image) (z : Cpu) :
    (schedulerCall image z).mem =
      writeWord (fun a => if (z.sp + 36 - a).toNat < 36 then z.mem a else 0) nextTaskSpAdr z.sp := rfl

theorem comparingTask_room (equal : Bool) : Room (comparingTask equal).sp 36 where
  sram := by
    show 0x200 + 36 ≤ (0x800 : Word).toNat + 1
    decide
  clear := by
    show Clear 0x800 36
    decide

theorem schedulerCall_resumes (image : Image) {z : Cpu} (sp : z.sp = 0x7DC) :
    CallsToResume image z (schedulerCall image z) where
  pc := rfl
  scheduled := readWord_writeWord _ _ _
  kept := by
    intro a inside
    rw [sp] at inside
    have low : a ≠ nextTaskSpAdr := by
      rintro rfl
      exact absurd inside (by decide)
    have high : a ≠ nextTaskSpAdr + 1 := by
      rintro rfl
      exact absurd inside (by decide)
    rw [schedulerCall_mem, writeWord_outside low high, sp, if_pos inside]
  room := by
    have sram : 0x200 + 37 ≤ (0x1003 : Word).toNat + 1 := by decide
    have clear : Clear 0x1003 37 := by decide
    exact ⟨sram, clear⟩
  apart := by
    intro a inside
    rw [sp] at inside
    show 37 ≤ ((0x1000 : Word) + 3 - a).toNat
    bv_omega

/-- A task that found two registers different is resumed as it was. -/
theorem preemption_transparent_when_different :
    ∃ z y f, steps sampleImage.program 48 ((comparingTask false).interrupt timer1CompaVector) = some z ∧
      CallsToResume sampleImage z y ∧ steps sampleImage.program 116 y = some f ∧
      f.regs = (comparingTask false).regs ∧ f.sp = 0x800 ∧ f.pc = 0x400 ∧ f.sreg = (comparingTask false).sreg := by
  obtain ⟨z, saved, savedSp, -, resumes⟩ :=
    preemption_transparent_iff sampleImage (comparingTask false) rfl (comparingTask_room false)
  have calls := schedulerCall_resumes sampleImage (z := z) (by rw [savedSp]; rfl)
  obtain ⟨f, resumed, regs, sp, pc, flags⟩ := resumes _ calls
  refine ⟨z, _, f, saved, calls, resumed, regs, sp, pc, flags.mpr ?_⟩
  have timer : (schedulerCall sampleImage z).mem timsk1 = 0 := by
    rw [schedulerCall_mem, writeWord_outside (by decide) (by decide), savedSp]
    rfl
  rw [timer]
  decide

/-- **A task that found two registers equal** is resumed with the zero flag clear: its next branch goes
the other way. -/
theorem preemption_loses_zero_flag :
    ∃ z y f, steps sampleImage.program 48 ((comparingTask true).interrupt timer1CompaVector) = some z ∧
      CallsToResume sampleImage z y ∧ steps sampleImage.program 116 y = some f ∧
      (comparingTask true).sreg.z = true ∧ f.sreg.z = false := by
  have room := comparingTask_room true
  have calls := schedulerCall_resumes sampleImage
    (z := contextSaved (handlerEntered sampleImage (comparingTask true))) (handlerSaved_sp _ _)
  obtain ⟨f, runs, -, -, -, sreg⟩ := preempted_task_resumes sampleImage room calls
  refine ⟨_, _, f, (runs_handlerSaved sampleImage (comparingTask true)).steps, calls, runs.steps, rfl, ?_⟩
  rw [sreg, resumedFlags_z]
  exact decide_eq_false (enabled_timer_ne_zero _)

end Simplos
