import Simplos.Kernel.System
import Simplos.Switch.Preemption

/-!
# A whole switch

From the interrupt or the call of `k_yield` to the return at the end of the switch: the code that is left has its
context on its own stack, the code that is resumed has its registers back, and the four stack-pointer variables are
what the kernel's own description of a switch, `Os.contextSwtich`, says.
-/

namespace Simplos
set_option autoImplicit false
open Avr

/-! ## Running to a return -/

/-- The instruction does not return. -/
def NotReturn (i : Instr) (_ : Cpu) : Prop := i ∉ [Instr.ret, .reti]

/-- Execution from `s` gets to a return, the first one, which leads to `t`. -/
def RunsToReturn (program : Program) (s t : Cpu) : Prop :=
  ∃ n u i, Runs program NotReturn n s u ∧ program u.pc = some i ∧ i ∈ [Instr.ret, .reti] ∧ t = i.exec program u

section

variable {program : Program} {s t u : Cpu}

theorem RunsToReturn.prepend {n : Nat} (first : Runs program NotReturn n s t) (h : RunsToReturn program t u) :
    RunsToReturn program s u := by
  obtain ⟨m, v, i, runs, fetch, returns, rfl⟩ := h
  exact ⟨n + m, v, i, first.trans runs, fetch, returns, rfl⟩

theorem RunsToReturn.here {i : Instr} (fetch : program s.pc = some i) (returns : i ∈ [Instr.ret, .reti]) :
    RunsToReturn program s (i.exec program s) := ⟨0, s, i, .refl s, fetch, returns, rfl⟩

/-- There is only one first return. -/
theorem RunsToReturn.unique {v : Cpu} (h : RunsToReturn program s t) (h' : RunsToReturn program s v) : t = v := by
  obtain ⟨n, u, i, runs, fetch, returns, rfl⟩ := h
  obtain ⟨n', u', i', runs', fetch', returns', rfl⟩ := h'
  induction runs generalizing n' with
  | refl c =>
    rcases runs'.uncons fetch with rfl | ⟨notReturn, -⟩
    · cases fetch.symm.trans fetch'
      rfl
    · exact absurd returns notReturn
  | next first notReturn _ ih =>
    rcases runs'.uncons first with rfl | ⟨-, m, rest⟩
    · cases first.symm.trans fetch'
      exact absurd returns' notReturn
    · exact ih fetch m rest

end

/-! ## The variables of the kernel -/

/-- The stack-pointer variables hold what the kernel's state says. -/
structure Words (mem : Memory) (os : Os) : Prop where
  task : readWord mem taskSpAdr = os.taskSp
  prev : readWord mem prevTaskSpAdr = os.prevTaskSp
  next : readWord mem nextTaskSpAdr = os.nextTaskSp
  scheduler : readWord mem schedulerTaskSpAdr = os.schedulerTaskSp

/-- The instructions and the kernel choose alike. -/
theorem Words.selected {mem : Memory} {os : Os} (words : Words mem os) (sp : Word) :
    (os.contextSwtich sp).taskSp = selectedSp mem := by
  rw [selectedSp, words.next, words.scheduler]
  rfl

/-! ## `CONTEXT_SWTICH` -/

/-- `CONTEXT_SWTICH`, entered with the context `own` in memory `mem`, has come to its end in `w`: everything but the
program counter is that of the context `ctx` saved at `sp`. -/
structure Switches (mem : Memory) (top : Word) (own : Context) (sp : Word) (ctx : Context) (w : Cpu) : Prop where
  regs : w.regs = ctx.regs
  sreg : w.sreg = ctx.sreg.logic ((mem timsk1 &&& ~~~2) ||| 2)
  stack : w.sp = sp + 33
  returns : ReturnsTo w.mem (sp + 33) ctx.pc
  saved : SavedContext w.mem (top - 36) own
  task : readWord w.mem taskSpAdr = sp
  prev : readWord w.mem prevTaskSpAdr = top - 36
  next : readWord w.mem nextTaskSpAdr = 0
  scheduler : readWord w.mem schedulerTaskSpAdr = readWord mem schedulerTaskSpAdr
  kept : ∀ a, a ∉ switchCells → 37 ≤ (top - a).toNat → a ≠ sp + 33 → w.mem a = mem a

/-- The variables are as `storeSelected` left them. -/
theorem enabledMem_cell {mem : Memory} {sp a : Word} {scratch : Byte} (framed : Clear (sp + 36) 36)
    (cell : a ∈ switchCells) (notTimer : a ≠ timsk1) : enabledMem mem sp scratch a = switchedMem mem sp a := by
  have notScratch : a ≠ sp + 33 := by
    intro same
    apply framed.ne _ cell same.symm
    bv_omega
  rw [enabledMem, Function.update_of_ne notTimer, Function.update_of_ne notScratch]

/-- **The whole of `CONTEXT_SWTICH`.** -/
theorem runs_contextSwtich {program : Program} {e : Cpu} {own ctx : Context} {sp : Word}
    (code : ContextSwtichAt program e.pc) (enters : Enters e own) (clear : Clear (e.sp + 3) 37)
    (selected : selectedSp e.mem = sp) (saved : SavedContext e.mem sp ctx) (framed : Clear (sp + 36) 36)
    (apart : ∀ a, (sp + 36 - a).toNat < 36 → 37 ≤ (e.sp + 3 - a).toNat) :
    ∃ n w, Runs program NotReturn n e w ∧ w.pc = e.pc + 123 ∧ Switches e.mem (e.sp + 3) own sp ctx w := by
  have plain : ∀ i ∈ savingCode ++ (.cpse 18 1 :: .rjmp 4 :: loadScheduler) ++
      (switchingCode ++ popContext ++ scilentEnableMt), i ∉ [Instr.ret, .reti] := by decide
  have bottom : e.sp + 3 - 36 = e.sp - 33 := by bv_omega
  obtain ⟨t, saving, half⟩ : ∃ t, Runs program NotReturn 58 e t ∧ Saves e t :=
    ⟨_, runs_saving code fun i member _ => plain i (by simp [member]), saves clear⟩
  obtain ⟨u, choosing, chooses⟩ := runs_choice (P := NotReturn) (code.choice_of_saves half) half.unscheduled_iff
    half.chosen fun i member _ => plain i (List.mem_append_left _ (List.mem_append_right _ member))
  have cell : ∀ {a}, a ∈ switchCells → a ∉ [taskSpAdr, taskSpAdr + 1, prevTaskSpAdr, prevTaskSpAdr + 1, timsk1] →
      t.mem a = e.mem a := fun member other => half.kept _ other (clear_below clear member)
  have scheduler : readWord t.mem schedulerTaskSpAdr = readWord e.mem schedulerTaskSpAdr :=
    readWord_congr (cell (by decide) (by decide)) (cell (by decide) (by decide))
  have chosen : u.regs 17 ++ u.regs 16 = sp := by
    rw [chooses.chosen, scheduler, ← selected, selectedSp]
  have frame : SavedContext t.mem sp ctx := by
    apply half.frame_kept saved framed
    intro a inside
    have := apart a inside
    bv_omega
  have start : u.pc = e.pc + 66 := by
    rw [chooses.pc, half.pc, BitVec.add_assoc]
    rfl
  have resuming := runs_resuming (P := NotReturn) code start (chooses.x.trans half.x) (chooses.zero.trans half.zero)
    chosen (chooses.mem ▸ frame) framed fun i member _ => plain i (List.mem_append_right _ member)
  rw [chooses.mem] at resuming
  refine ⟨_, _, saving.trans (choosing.trans resuming), rfl, ?_⟩
  -- what the second half leaves alone
  have scratch : 37 ≤ (e.sp + 3 - (sp + 33)).toNat := by
    apply apart
    bv_omega
  have rest : ∀ a, a ∉ switchCells → a ≠ sp + 33 → enabledMem t.mem sp (ctx.regs 16) a = t.mem a := by
    intro a noCell notScratch
    have among : [taskSpAdr, taskSpAdr + 1, nextTaskSpAdr, nextTaskSpAdr + 1, 0x65, 0x64] ⊆ switchCells := by decide
    refine enabledMem_kept (fun member => noCell (among member)) ?_ notScratch
    rintro rfl
    exact noCell (by decide)
  have word : ∀ {a}, a ∈ switchCells → a + 1 ∈ switchCells → a ≠ timsk1 → a + 1 ≠ timsk1 →
      readWord (enabledMem t.mem sp (ctx.regs 16)) a = readWord (switchedMem t.mem sp) a := by
    intro a low high notLow notHigh
    exact readWord_congr (enabledMem_cell framed low notLow) (enabledMem_cell framed high notHigh)
  have timer : t.mem timsk1 = e.mem timsk1 &&& ~~~2 := half.timer
  exact {
    regs := rfl
    sreg := by rw [← timer]
    stack := rfl
    returns := frame.returns_enabled framed _
    saved := by
      rw [bottom]
      apply (half.saved own enters).congr
      intro a inside
      have covered : (e.sp + 3 - a).toNat < 37 := by bv_omega
      apply rest
      · exact clear.notMem covered (List.Subset.refl _)
      · rintro rfl
        omega
    task := (word (by decide) (by decide) (by decide) (by decide)).trans (readWord_switchedMem t.mem sp)
    prev := by
      rw [word (by decide) (by decide) (by decide) (by decide), bottom, ← half.prev]
      exact readWord_congr (switchedMem_kept (by decide)) (switchedMem_kept (by decide))
    next := (word (by decide) (by decide) (by decide) (by decide)).trans (readWord_switchedMem_next t.mem sp)
    scheduler := by
      rw [word (by decide) (by decide) (by decide) (by decide), ← scheduler]
      exact readWord_congr (switchedMem_kept (by decide)) (switchedMem_kept (by decide))
    kept := by
      intro a noCell outside notScratch
      refine (rest a noCell notScratch).trans (half.kept a ?_ (by bv_omega))
      have among : [taskSpAdr, taskSpAdr + 1, prevTaskSpAdr, prevTaskSpAdr + 1, timsk1] ⊆ switchCells := by decide
      exact fun member => noCell (among member) }

/-! ## The handler and `k_yield` -/

/-- A switch begins in `e`: the interrupt of the timer was taken, or `k_yield` was called. The code that is left has the
context `own`, and its stack pointer will be `top` when it is resumed. -/
inductive Departs (image : Image) : Cpu → Context → Word → Prop where
  | interrupt (s : Cpu) : Departs image (s.interrupt timer1CompaVector) (preemptedContext s) s.sp
  | call {y : Cpu} (back : Pc) (start : y.pc = image.kYieldAdr) (returns : ReturnsTo y.mem y.sp back) :
      Departs image y ⟨y.regs, { y.sreg with i := false }, back⟩ (y.sp + 3)

/-- The switch that began in memory `mem` with the context `own` below `top` has returned in `t` to the code whose
context `ctx` was saved at `sp`. -/
structure HandsOver (mem : Memory) (top : Word) (own : Context) (sp : Word) (ctx : Context) (t : Cpu) : Prop where
  regs : t.regs = ctx.regs
  sreg : t.sreg = ctx.resumedFlags ((mem timsk1 &&& ~~~2) ||| 2)
  stack : t.sp = sp + 36
  pc : t.pc = ctx.pc
  saved : SavedContext t.mem (top - 36) own
  task : readWord t.mem taskSpAdr = sp
  prev : readWord t.mem prevTaskSpAdr = top - 36
  next : readWord t.mem nextTaskSpAdr = 0
  scheduler : readWord t.mem schedulerTaskSpAdr = readWord mem schedulerTaskSpAdr
  kept : ∀ a, a ∉ switchCells → 37 ≤ (top - a).toNat → a ≠ sp + 33 → t.mem a = mem a

/-- The return at the end of a switch goes to the resumed code. -/
theorem Switches.handsOver {mem : Memory} {top sp : Word} {own ctx : Context} {w t : Cpu}
    (h : Switches mem top own sp ctx w) (regs : t.regs = w.regs) (sreg : t.sreg = { w.sreg with i := true })
    (stack : t.sp = w.sp + 3) (pc : t.pc = returnAddress w.mem w.sp) (memory : t.mem = w.mem) :
    HandsOver mem top own sp ctx t where
  regs := regs.trans h.regs
  sreg := by
    rw [sreg, h.sreg]
    rfl
  stack := by
    rw [stack, h.stack, BitVec.add_assoc]
    rfl
  pc := by
    rw [pc, h.stack]
    exact h.returns.returnAddress
  saved := memory ▸ h.saved
  task := memory ▸ h.task
  prev := memory ▸ h.prev
  next := memory ▸ h.next
  scheduler := memory ▸ h.scheduler
  kept := memory ▸ h.kept

section

variable {image : Image} {e : Cpu} {own ctx : Context} {top sp : Word}

/-- **A whole switch.** -/
theorem Departs.handsOver (departs : Departs image e own top) (clear : Clear top 37) (selected : selectedSp e.mem = sp)
    (saved : SavedContext e.mem sp ctx) (framed : Clear (sp + 36) 36)
    (apart : ∀ a, (sp + 36 - a).toNat < 36 → 37 ≤ (top - a).toNat) :
    ∃ t, RunsToReturn image.program e t ∧ HandsOver e.mem top own sp ctx t := by
  cases departs with
  | interrupt s =>
    have back : (handlerEntered image s).sp + 3 = s.sp := BitVec.sub_add_cancel s.sp 3
    have jump : Runs image.program NotReturn 1 (s.interrupt timer1CompaVector) (handlerEntered image s) :=
      .one (i := .jmp image.timer1CompaVectAdr) image.vector.1 (by simp [NotReturn])
    obtain ⟨n, w, runs, pc, switches⟩ := runs_contextSwtich image.handler_switch (handlerEntered_enters image s)
      (back.symm ▸ clear) selected saved framed (back.symm ▸ apart)
    rw [back] at switches
    have fetch : image.program w.pc = some .reti := pc ▸ image.handler_reti
    refine ⟨_, (RunsToReturn.here fetch (by decide)).prepend (jump.trans runs), ?_⟩
    exact switches.handsOver rfl rfl rfl rfl rfl
  | call back start returns =>
    have masking : Runs image.program NotReturn 1 e _ := .one (start ▸ image.kYield_cli) (by simp [NotReturn])
    rw [Instr.exec_straight rfl, start] at masking
    let y : Cpu := { e with sreg := { e.sreg with i := false }, pc := image.kYieldAdr + 1 }
    have code : ContextSwtichAt image.program y.pc := image.kYield_parts.1
    have enters : Enters y ⟨e.regs, { e.sreg with i := false }, back⟩ := ⟨rfl, rfl, returns⟩
    obtain ⟨n, w, runs, pc, switches⟩ := runs_contextSwtich code enters clear selected saved framed apart
    have enabling : Runs image.program NotReturn 1 w _ := .one (pc ▸ image.kYield_sei) (by simp [NotReturn])
    have fetch : image.program (Instr.sei.exec image.program w).pc = some .ret := by
      show image.program (w.pc + 1) = some .ret
      rw [pc]
      exact image.kYield_ret
    refine ⟨_, (RunsToReturn.here fetch (by decide)).prepend (masking.trans (runs.trans enabling)), ?_⟩
    exact switches.handsOver rfl rfl rfl rfl rfl

theorem HandsOver.words {os : Os} {t : Cpu} (h : HandsOver e.mem top own (selectedSp e.mem) ctx t)
    (words : Words e.mem os) : Words t.mem (os.contextSwtich (top - 36)) where
  task := h.task.trans (words.selected _).symm
  prev := h.prev
  next := h.next
  scheduler := h.scheduler.trans words.scheduler

end

end Simplos
