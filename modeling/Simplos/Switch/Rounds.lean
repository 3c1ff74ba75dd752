import Simplos.Switch.System

/-!
# Rounds of the scheduler

Every state the system reaches while the scheduler is not interrupted is `Located`: it lies in compiled
code, or on a determined run of known code that heads for a state described exactly. From this follow
both what the scheduler's stack looks like at every switch and that its prologue, its body and its call
of `k_yield` cannot be interrupted.
-/

namespace Simplos
set_option autoImplicit false
open Avr

/-! ## Heading for a state -/

/-- The run of known code from `c`, through instructions that satisfy `P`, gets to a state in `Goal`. -/
def Heading (image : SchedulerImage) (P : Instr → Cpu → Prop) (Goal : Cpu → Prop) (c : Cpu) : Prop :=
  ∃ n u, Runs image.program P n c u ∧ Goal u

theorem Heading.arrived {image : SchedulerImage} {P : Instr → Cpu → Prop} {Goal : Cpu → Prop} {c : Cpu}
    (goal : Goal c) : Heading image P Goal c := ⟨0, c, .refl c, goal⟩

/-- The next instruction on the way is determined: either the goal is reached or the way goes on. -/
theorem Heading.step {image : SchedulerImage} {P : Instr → Cpu → Prop} {Goal : Cpu → Prop} {c : Cpu} {i : Instr}
    (h : Heading image P Goal c) (fetch : image.program c.pc = some i) :
    Goal c ∨ P i c ∧ Heading image P Goal (i.exec image.program c) := by
  obtain ⟨n, u, runs, goal⟩ := h
  rcases runs.uncons fetch with rfl | ⟨holds, m, rest⟩
  · exact .inl goal
  · exact .inr ⟨holds, m, u, rest, goal⟩

/-- Where a run of known code passes, code is known. -/
theorem Heading.known {image : SchedulerImage} {P : Instr → Cpu → Prop} {Goal : Cpu → Prop} {c : Cpu}
    (known : ∀ u, Goal u → image.program u.pc ≠ none) (h : Heading image P Goal c) : image.program c.pc ≠ none := by
  obtain ⟨n, u, runs, goal⟩ := h
  cases runs with
  | refl => exact known c goal
  | next fetch _ _ =>
    rw [fetch]
    exact Option.some_ne_none _

/-- An instruction that neither changes the phase nor enters a switch. -/
def Quiet (p : Phase) (i : Instr) : Prop := p.next i = p ∧ i ≠ .cli

instance (p : Phase) (i : Instr) : Decidable (Quiet p i) := inferInstanceAs (Decidable (_ ∧ _))

theorem executed_quiet {image : SchedulerImage} {m : Machine} {i : Instr} (quiet : Quiet m.phase i)
    (known : image.program (i.exec image.program m.cpu).pc ≠ none) :
    m.executed image i =
      { m with cpu := i.exec image.program m.cpu, shadow := decide (i = .sei ∨ i = .reti) } := by
  have entry : (i.exec image.program m.cpu).pc ≠ image.entryAdr := by
    intro same
    rw [same] at known
    exact known (image.compiled _ image.bodyAdr)
  have kept : m.phase = .task → ¬ m.phase = .resuming := by
    intro task
    rw [task]
    decide
  simpa [Machine.executed, quiet.1, quiet.2, entry] using kept

/-! ## The run of a task's switch -/

/-- No task is scheduled and the scheduler's stack pointer is the one it started with. -/
structure Parked (top : Word) (mem : Memory) : Prop where
  scheduler : readWord mem schedulerTaskSpAdr = top - 36
  next : readWord mem nextTaskSpAdr = 0

/-- What ends the code of `CONTEXT_SWTICH` at `base`. -/
def SwitchEnds (program : Program) (base : Pc) : Prop :=
  program (base + 123) = some .reti ∨ program (base + 123) = some .sei ∧ program (base + 124) = some .ret

/-- A task's switch has saved its context at `sp` and is about to select the scheduler, whose context
`ctx` is complete. -/
structure AtSelection (image : SchedulerImage) (top : Word) (ctx : Context) (sp : Word) (u : Cpu) : Prop where
  code : ∃ base, ContextSwtichAt image.program base ∧ SwitchEnds image.program base ∧ u.pc = base + 62
  zero : u.regs 1 = 0
  x : u.pointer .x = nextTaskSpAdr + 1
  prev : readWord u.mem prevTaskSpAdr = sp
  parked : Parked top u.mem
  saved : SavedContext u.mem (top - 36) ctx

/-- The switch has restored the scheduler's context and is about to return, the timer enabled. -/
structure AtReturn (image : SchedulerImage) (top : Word) (ctx : Context) (sp : Word) (v : Cpu) : Prop where
  fetch : image.program v.pc = some .ret ∧ v.sreg.i = true ∨ image.program v.pc = some .reti
  timer : (v.mem timsk1).getLsbD ocie1a = true
  stack : v.sp = top - 3
  regs : v.regs = ctx.regs
  returns : ReturnsTo v.mem v.sp ctx.pc
  prev : readWord v.mem prevTaskSpAdr = sp
  scheduler : readWord v.mem schedulerTaskSpAdr = top - 36

/-- **The first half of a task's switch** runs with the interrupt flag untouched up to the selection of
the scheduler. -/
theorem heading_selection {image : SchedulerImage} {top : Word} {ctx : Context} {e : Cpu}
    (code : ContextSwtichAt image.program e.pc) (ends : SwitchEnds image.program e.pc)
    (clear : Clear (e.sp + 3) 37) (parked : Parked top e.mem) (saved : SavedContext e.mem (top - 36) ctx)
    (topClear : Clear top 36) (apart : ∀ a, (top - a).toNat < 36 → 34 ≤ (e.sp - a).toNat) :
    Heading image (fun i _ => Quiet .task i ∧ i.keepsI = true) (AtSelection image top ctx (e.sp - 33)) e := by
  have quiet : ∀ i ∈ savingCode, Quiet .task i ∧ i.keepsI = true := by decide
  obtain ⟨t, saving, half⟩ :
      ∃ t, Runs image.program (fun i _ => Quiet .task i ∧ i.keepsI = true) 58 e t ∧ Saves e t :=
    ⟨_, runs_saving code fun i member _ => quiet i member, saves clear⟩
  have selected := exec_cpse_scheduler code half parked.next
  have test : Runs image.program (fun i _ => Quiet .task i ∧ i.keepsI = true) 1 t _ :=
    .one (i := .cpse 18 1) (by rw [half.pc]; exact code.cpse) (by decide)
  rw [selected] at test
  have cell : ∀ {a}, a ∈ switchCells → a ∉ [taskSpAdr, taskSpAdr + 1, prevTaskSpAdr, prevTaskSpAdr + 1, timsk1] →
      t.mem a = e.mem a := fun member other => half.kept _ other (clear_below clear member)
  refine ⟨_, _, saving.trans test, ⟨e.pc, code, ends, rfl⟩, half.zero, half.x, half.prev, ⟨?_, ?_⟩, ?_⟩
  · exact (readWord_congr (cell (by decide) (by decide)) (cell (by decide) (by decide))).trans parked.scheduler
  · exact (readWord_congr (cell (by decide) (by decide)) (cell (by decide) (by decide))).trans parked.next
  · apply half.frame_kept saved topClear.frame
    intro a inside
    rw [BitVec.sub_add_cancel] at inside
    exact apart a inside

/-- `SCILENT_ENABLE_MT` may be followed by `sei` before the return. -/
theorem heading_ends {image : SchedulerImage} {P : Instr → Cpu → Prop} {Goal : Cpu → Prop} {base : Pc} {w : Cpu}
    (ends : SwitchEnds image.program base) (start : w.pc = base + 123) (sei : P .sei w)
    (goal : ∀ v, (image.program v.pc = some .ret ∧ v.sreg.i = true ∨ image.program v.pc = some .reti) →
      v.regs = w.regs → v.sp = w.sp → v.mem = w.mem → Goal v) : Heading image P Goal w := by
  rcases ends with reti | ⟨enables, ret⟩
  · exact .arrived (goal w (.inr (by rw [start]; exact reti)) rfl rfl rfl)
  · have one : Runs image.program P 1 w _ := .one (i := .sei) (by rw [start]; exact enables) sei
    refine ⟨_, _, one, goal _ (.inl ⟨?_, rfl⟩) rfl rfl rfl⟩
    show image.program (w.pc + 1) = some .ret
    rw [start, BitVec.add_assoc]
    exact ret

theorem Heading.prepend {image : SchedulerImage} {P : Instr → Cpu → Prop} {Goal : Cpu → Prop} {n : Nat} {c d : Cpu}
    (runs : Runs image.program P n c d) (h : Heading image P Goal d) : Heading image P Goal c := by
  obtain ⟨m, u, rest, goal⟩ := h
  exact ⟨n + m, u, runs.trans rest, goal⟩

/-- **The second half of a task's switch** runs up to the return to the scheduler. -/
theorem heading_return {image : SchedulerImage} {top sp : Word} {ctx : Context} {u : Cpu} (clear : Clear top 36)
    (selection : AtSelection image top ctx sp u) :
    Heading image (fun i _ => Quiet .resuming i) (AtReturn image top ctx sp)
      ((Instr.ldi 30 (lo8 schedulerTaskSpAdr)).exec image.program u) := by
  obtain ⟨base, code, ends, start⟩ := selection.code
  obtain ⟨mem, -, -, zero, x, low, high⟩ := execAll_loadScheduler u
  obtain ⟨t, loads, def_t⟩ : ∃ t, Runs image.program (fun i _ => Quiet .resuming i) 3
      ((Instr.ldi 30 (lo8 schedulerTaskSpAdr)).exec image.program u) t ∧ t = execAll loadScheduler u := by
    have quiet : ∀ i ∈ [Instr.ldi 31 (hi8 schedulerTaskSpAdr), .ldInc 16 .z, .ld 17 .z], Quiet .resuming i := by decide
    have placed := code.scheduler
    rw [← start] at placed
    have rest : Placed image.program ((Instr.ldi 30 (lo8 schedulerTaskSpAdr)).exec image.program u).pc
        [.ldi 31 (hi8 schedulerTaskSpAdr), .ldInc 16 .z, .ld 17 .z] := placed.2
    refine ⟨_, Runs.block rest (by decide) fun i member _ => quiet i member, ?_⟩
    rw [Instr.exec_straight rfl]
    rfl
  have at_t : t.pc = base + 66 := by
    rw [def_t, execAll_pc, start, BitVec.add_assoc]
    rfl
  rw [← def_t] at mem zero x low high
  have chosen : t.regs 17 ++ t.regs 16 = top - 36 := by
    rw [low, high]
    exact selection.parked.scheduler
  have framed := clear.frame
  have saved : SavedContext t.mem (top - 36) ctx := by
    rw [mem]
    exact selection.saved
  have quiet : ∀ i ∈ switchingCode ++ popContext ++ scilentEnableMt, Quiet .resuming i := by decide
  have resuming := runs_resuming (P := fun i _ => Quiet .resuming i) code at_t (x.trans selection.x)
    (zero.trans selection.zero) chosen saved framed fun i member _ => quiet i member
  have scratch : ∀ {a}, a ∈ switchCells → a ≠ top - 36 + 33 := by
    intro a member same
    exact framed.ne (a := top - 36 + 33) (by bv_omega) member same.symm
  apply Heading.prepend (loads.trans resuming)
  apply heading_ends ends rfl (by decide)
  intro v fetch regs stack memory
  dsimp only at regs stack memory
  have cell : ∀ {a}, a ∈ switchCells → a ∉ [taskSpAdr, taskSpAdr + 1, nextTaskSpAdr, nextTaskSpAdr + 1, 0x65, 0x64] →
      a ≠ timsk1 → v.mem a = u.mem a := by
    intro a member other notTimer
    rw [memory, enabledMem_kept other notTimer (scratch member), mem]
  exact {
    fetch := fetch
    timer := by
      rw [memory, enabledMem, Function.update_self]
      simp [ocie1a]
    stack := by
      rw [stack]
      bv_omega
    regs := regs
    returns := by
      rw [memory, stack]
      exact saved.returns_enabled framed _
    prev := (readWord_congr (cell (by decide) (by decide) (by decide)) (cell (by decide) (by decide) (by decide))).trans
      selection.prev
    scheduler := (readWord_congr (cell (by decide) (by decide) (by decide))
      (cell (by decide) (by decide) (by decide))).trans selection.parked.scheduler }

/-! ## From the return to the body of the loop -/

/-- The scheduler is about to store the timer mask; `r16` is on its stack. -/
structure AtMask (image : SchedulerImage) (top sp : Word) (w : Cpu) : Prop where
  pc : w.pc = image.startAdr + 70
  masked : (w.regs 16).getLsbD ocie1a = false
  stack : w.sp = top - 1
  prev : readWord w.mem prevTaskSpAdr = sp
  scheduler : readWord w.mem schedulerTaskSpAdr = top - 36

/-- The addresses the scheduler resumes at: behind `SET_RETURN_POINT` and behind its call of `k_yield`. -/
def SchedulerImage.Resumes (image : SchedulerImage) (pc : Pc) : Prop :=
  pc = image.startAdr + 13 ∨ pc = image.callAdr + 2

/-- The loop from its second `nop` to the store of the timer mask. -/
theorem heading_mask_nop {image : SchedulerImage} {top sp : Word} {s : Cpu} (pc : s.pc = image.startAdr + 65)
    (stack : s.sp = top) (clear : Clear top 36) (prev : readWord s.mem prevTaskSpAdr = sp)
    (scheduler : readWord s.mem schedulerTaskSpAdr = top - 36) :
    Heading image (fun i _ => Quiet .resumed i) (AtMask image top sp) s := by
  have quiet : ∀ i ∈ [Instr.nop, .push 16, .lds 16 timsk1, .andi 16 (~~~(1 <<< ocie1a))], Quiet .resumed i := by decide
  have placed : Placed image.program s.pc [.nop, .push 16, .lds 16 timsk1, .andi 16 (~~~(1 <<< ocie1a))] := by
    rw [pc]
    simp only [Placed, Instr.size, BitVec.add_assoc]
    exact ⟨image.loopCode.nop, image.loopCode.push, image.loopCode.lds, image.loopCode.andi, trivial⟩
  have run := Runs.block (P := fun i _ => Quiet .resumed i) placed (by decide) fun i member _ => quiet i member
  have cell : ∀ {a}, a ∈ switchCells →
      (execAll [.nop, .push 16, .lds 16 timsk1, .andi 16 (~~~(1 <<< ocie1a))] s).mem a = s.mem a := by
    intro a member
    have apart : a ≠ s.sp := by
      rintro rfl
      have := clear s.sp member
      rw [stack] at this
      simp at this
    exact Function.update_of_ne apart _ _
  refine ⟨_, _, run, ?_, ?_, ?_, ?_, ?_⟩
  · rw [execAll_pc, pc, BitVec.add_assoc]
    rfl
  · simp [execAll, Instr.effect, Cpu.setReg, Cpu.setLogic, ocie1a]
  · rw [← stack]
    rfl
  · exact (readWord_congr (cell (by decide)) (cell (by decide))).trans prev
  · exact (readWord_congr (cell (by decide)) (cell (by decide))).trans scheduler

/-- **From the return** the scheduler gets to the store of the timer mask. -/
theorem heading_mask {image : SchedulerImage} {top sp : Word} {s : Cpu} (resumes : image.Resumes s.pc)
    (stack : s.sp = top) (clear : Clear top 36) (prev : readWord s.mem prevTaskSpAdr = sp)
    (scheduler : readWord s.mem schedulerTaskSpAdr = top - 36) :
    Heading image (fun i _ => Quiet .resumed i) (AtMask image top sp) s := by
  rcases resumes with pc | pc
  · have jump : Runs image.program (fun i _ => Quiet .resumed i) 1 s { s with pc := image.startAdr + 64 } :=
      .one (i := .jmp (image.startAdr + 64)) (by rw [pc]; exact image.returnPoint) (by simp [Quiet, Phase.next])
    have step : Runs image.program (fun i _ => Quiet .resumed i) 1 { s with pc := image.startAdr + 64 } _ :=
      .one (i := .nop) image.loopCode.entryPoint (by decide)
    have landed : Instr.nop.exec image.program { s with pc := image.startAdr + 64 } =
        { s with pc := image.startAdr + 65 } := by
      show { s with pc := image.startAdr + 64 + 1 } = _
      simp [BitVec.add_assoc]
    rw [landed] at step
    apply Heading.prepend (jump.trans step)
    exact heading_mask_nop (s := { s with pc := image.startAdr + 65 }) rfl stack clear prev scheduler
  · have jump : Runs image.program (fun i _ => Quiet .resumed i) 1 s { s with pc := image.startAdr + 63 } :=
      .one (i := .jmp (image.startAdr + 63)) (by rw [pc]; exact image.callReturn) (by simp [Quiet, Phase.next])
    have step : Runs image.program (fun i _ => Quiet .resumed i) 1 { s with pc := image.startAdr + 63 } _ :=
      .one (i := .rjmp 1) image.loopCode.rjmp (by decide)
    have landed : (Instr.rjmp 1).exec image.program { s with pc := image.startAdr + 63 } =
        { s with pc := image.startAdr + 65 } := by
      show { s with pc := image.startAdr + 63 + 1 + 1 } = _
      simp [BitVec.add_assoc]
    rw [landed] at step
    apply Heading.prepend (jump.trans step)
    exact heading_mask_nop (s := { s with pc := image.startAdr + 65 }) rfl stack clear prev scheduler

/-! ## The scheduler's own switch -/

theorem TaskContext.framed {image : SchedulerImage} {top sp : Word} {ctx : Context} (h : TaskContext image top sp ctx) :
    Clear (sp + 36) 36 := by
  intro a cell
  rcases h.resumes with ⟨-, room⟩ | ⟨-, room⟩
  · have := room.clear a cell
    omega
  · have := room.clear a cell
    bv_omega

/-- `RESTORE_CONTEXT` of the scheduler's switch has restored a task's context: its return address is
still on its stack, the timer is masked, and the scheduler's context `sched` is complete. -/
structure Restored (image : SchedulerImage) (top : Word) (sched : Context) (v : Cpu) : Prop where
  pc : v.pc = image.kYieldAdr + 1 + 116
  masked : Masked v.mem
  parked : Parked top v.mem
  sched : SavedContext v.mem (top - 36) sched
  task : ∃ sp ctx, TaskContext image top sp ctx ∧ SavedContext v.mem sp ctx ∧ v.sp = sp + 33 ∧ v.sreg.i = false

/-- The scheduler's switch is about to restore the flags of a task. -/
structure AtFlags (image : SchedulerImage) (top : Word) (sched : Context) (u : Cpu) : Prop where
  out : image.program u.pc = some (.out .sreg 0)
  pop : image.program (u.pc + 1) = some (.pop 0)
  restored : Restored image top sched ((Instr.pop 0).exec image.program ((Instr.out .sreg 0).exec image.program u))

/-- **The scheduler's switch** to a task runs with the interrupt flag untouched until it restores the
task's flags. -/
theorem heading_flags {image : SchedulerImage} {top sp : Word} {ctx sched : Context} {e : Cpu}
    (start : e.pc = image.kYieldAdr + 1) (clear : Clear (e.sp + 3) 37) (topClear : Clear top 36)
    (schedules : Schedules image top e.mem sp ctx) (away : ∀ a, (sp + 36 - a).toNat < 36 → 34 ≤ (e.sp - a).toNat)
    (scheduler : readWord e.mem schedulerTaskSpAdr = top - 36)
    (saved : ∀ t, Saves e t → SavedContext t.mem (top - 36) sched) :
    Heading image (fun i _ => Quiet .scheduling i ∧ i.keepsI = true) (AtFlags image top sched) e := by
  have code : ContextSwtichAt image.program e.pc := start ▸ image.kYield_parts.1
  have quietSaving : ∀ i ∈ savingCode, Quiet .scheduling i ∧ i.keepsI = true := by decide
  have quietRest : ∀ i ∈ switchingCode ++ popRegisters, Quiet .scheduling i ∧ i.keepsI = true := by decide
  obtain ⟨t, saving, half⟩ :
      ∃ t, Runs image.program (fun i _ => Quiet .scheduling i ∧ i.keepsI = true) 58 e t ∧ Saves e t :=
    ⟨_, runs_saving code fun i member _ => quietSaving i member, saves clear⟩
  have scheduled : readWord e.mem nextTaskSpAdr ≠ 0 := by
    rw [schedules.next]
    exact schedules.nonzero
  have selecting := runs_select_task (P := fun i _ => Quiet .scheduling i ∧ i.keepsI = true) code half scheduled
    (fun _ => by decide) fun _ => by decide
  have framed := schedules.task.framed
  have frame := half.frame_kept schedules.saved framed away
  obtain ⟨u, restoring, out, pop, restored⟩ := runs_to_flags (P := fun i _ => Quiet .scheduling i ∧ i.keepsI = true)
    (s := { t with pc := e.pc + 66 }) code rfl half.x half.zero (half.chosen.trans schedules.next) frame framed
    fun i member _ => quietRest i member
  have other : ∀ {a}, a ∈ switchCells → a ∉ [taskSpAdr, taskSpAdr + 1, prevTaskSpAdr, prevTaskSpAdr + 1, timsk1] →
      a ∉ [taskSpAdr, taskSpAdr + 1, nextTaskSpAdr, nextTaskSpAdr + 1, 0x65, 0x64] → switchedMem t.mem sp a = e.mem a := by
    intro a member notSaved notSwitched
    rw [switchedMem_kept notSwitched, half.kept _ notSaved (clear_below clear member)]
  have masked : Masked (switchedMem t.mem sp) := by
    rw [Masked, switchedMem_kept (by decide), half.timer]
    simp [ocie1a]
  refine ⟨_, u, saving.trans (selecting.trans restoring), out, pop, ?_⟩
  rw [restored]
  exact {
    pc := by
      show e.pc + 116 = _
      rw [start]
    masked := masked
    parked := ⟨(readWord_congr (other (by decide) (by decide) (by decide)) (other (by decide) (by decide)
      (by decide))).trans scheduler, readWord_switchedMem_next _ _⟩
    sched := (saved t half).switched topClear.frame sp
    task := ⟨sp, ctx, schedules.task, frame.switched framed sp, rfl, schedules.task.masked⟩ }

/-- The scheduler's switch is about to enable interrupts (`sei`) and return to a task, or has done the
first and is about to do the second (`ret`). -/
structure AtTask (image : SchedulerImage) (top : Word) (sched : Context) (w : Cpu) : Prop where
  timer : (w.mem timsk1).getLsbD ocie1a = true
  parked : Parked top w.mem
  sched : SavedContext w.mem (top - 36) sched
  task : ∃ sp ctx, TaskContext image top sp ctx ∧ ReturnsTo w.mem w.sp ctx.pc ∧ w.sp = sp + 33

/-- **The end of the scheduler's switch** runs with interrupts disabled up to its `sei`. -/
theorem heading_sei {image : SchedulerImage} {top : Word} {sched : Context} {v : Cpu} (topClear : Clear top 36)
    (restored : Restored image top sched v) :
    Heading image (fun i _ => Quiet .task i ∧ i.keepsI = true)
      (fun w => w.pc = image.kYieldAdr + 1 + 123 ∧ AtTask image top sched w) v := by
  obtain ⟨sp, ctx, task, saved, stack, -⟩ := restored.task
  have framed := task.framed
  have notTimer : v.sp ≠ timsk1 := by
    rw [stack]
    exact framed.ne (by bv_omega) (by decide)
  have scratch : ∀ {a}, a ∈ switchCells → a ≠ v.sp := by
    intro a member same
    rw [stack] at same
    exact framed.ne (a := sp + 33) (by bv_omega) member same.symm
  have quiet : ∀ i ∈ scilentEnableMt, Quiet .task i ∧ i.keepsI = true := by decide
  have enabling := runs_enabling (P := fun i _ => Quiet .task i ∧ i.keepsI = true) image.kYield_parts.1 restored.pc
    notTimer fun i member _ => quiet i member
  have cell : ∀ {a}, a ≠ v.sp → a ≠ timsk1 →
      Function.update (Function.update v.mem v.sp (v.regs 16)) timsk1 (v.mem timsk1 ||| 2) a = v.mem a := by
    intro a notScratch notTimer
    rw [Function.update_of_ne notTimer, Function.update_of_ne notScratch]
  refine ⟨_, _, enabling, rfl, ?_, ⟨?_, ?_⟩, ?_, sp, ctx, task, ?_, stack⟩
  · show (Function.update (Function.update v.mem v.sp (v.regs 16)) timsk1 (v.mem timsk1 ||| 2) timsk1).getLsbD ocie1a = true
    rw [Function.update_self]
    simp [ocie1a]
  · exact (readWord_congr (cell (scratch (by decide)) (by decide)) (cell (scratch (by decide)) (by decide))).trans
      restored.parked.scheduler
  · exact (readWord_congr (cell (scratch (by decide)) (by decide)) (cell (scratch (by decide)) (by decide))).trans
      restored.parked.next
  · apply restored.sched.congr
    intro a inside
    have back : top - 36 + 36 = top := BitVec.sub_add_cancel _ _
    rw [back] at inside
    have notScratch : a ≠ v.sp := by
      rintro rfl
      rw [stack] at inside
      have := task.apart (sp + 33) (by bv_omega)
      omega
    exact cell notScratch (topClear.ne inside (by decide))
  · have returns : ReturnsTo v.mem v.sp ctx.pc := by
      rw [stack]
      exact saved.returns
    apply returns.congr
    intro a inside
    have frame : (sp + 36 - a).toNat < 36 := by
      rw [stack] at inside
      bv_omega
    have notScratch : a ≠ v.sp := by
      rintro rfl
      bv_omega
    exact cell notScratch (framed.ne frame (by decide))

end Simplos
