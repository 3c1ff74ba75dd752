import Simplos.Switch.Rounds

/-!
# Where the system can be

`Located` lists the places a state can be in while the scheduler is not interrupted, with what holds
there. Every step keeps it (`Located.step`), one lemma per kind of step.
-/

namespace Simplos
set_option autoImplicit false
open Avr

/-- The context above `scheduler_task_sp` while a task runs: the one `start_scheduler` pushed before the
first switch to the scheduler, then that of the scheduler's latest call of `k_yield`. -/
def schedulerContext (image : SchedulerImage) (first : Context) : Nat → Option Cpu → Context
  | 0, _ => first
  | _ + 1, none => first
  | _ + 1, some e => ⟨e.regs, e.sreg, image.callAdr + 2⟩

/-- The stack of the loop: in the first pass `sp` is below the context `start_scheduler` pushed, later it
is where it was before. -/
def LoopStack (top : Word) (first : Context) (rounds : Nat) (sp : Word) (mem : Memory) : Prop :=
  rounds = 0 ∧ sp = top - 36 ∧ SavedContext mem (top - 36) first ∨ rounds ≠ 0 ∧ sp = top

/-- What holds in the body of the loop, entered with the stack pointer `sp`. -/
structure LoopState (top : Word) (first : Context) (rounds : Nat) (left : Option Cpu) (sp : Word) (mem : Memory) :
    Prop where
  masked : Masked mem
  scheduler : readWord mem schedulerTaskSpAdr = top - 36
  prev : ∀ e, left = some e → readWord mem prevTaskSpAdr = e.sp - 33
  stack : LoopStack top first rounds sp mem

section

variable (image : SchedulerImage) (top : Word) (first : Context)

/-- The scheduler's context that is complete while a task runs. -/
def Machine.saved (m : Machine) : Context := schedulerContext image first m.rounds m.schedulerLeft

/-- What holds while a task runs. -/
structure TaskState (m : Machine) : Prop where
  phase : m.phase = .task
  called : m.schedulerLeft ≠ none
  parked : Parked top m.cpu.mem
  saved : SavedContext m.cpu.mem (top - 36) (m.saved image first)

/-- The places of a state in which a task runs, or its own switch has not yet selected the scheduler. -/
inductive TaskPlace (m : Machine) : Prop where
  /-- A task computes. -/
  | computing (task : TaskState image top first m) (code : image.TaskCode m.cpu.pc)
      (room : TaskRoom top m.cpu.sp 40)
  /-- A task has called `k_yield`. -/
  | calling (task : TaskState image top first m) (pc : m.cpu.pc = image.kYieldAdr)
      (room : TaskRoom top (m.cpu.sp + 3) 40)
  /-- A task's switch saves its context. -/
  | saving (called : m.schedulerLeft ≠ none) (disabled : m.cpu.sreg.i = false) (e : Cpu)
      (left : m.taskLeft = some e)
      (heads : Heading image (fun i _ => Quiet .task i ∧ i.keepsI = true)
        (AtSelection image top (m.saved image first) (e.sp - 33)) m.cpu)
  /-- The scheduler's switch ends, on the stack of the selected task. -/
  | leaving (called : m.schedulerLeft ≠ none) (disabled : m.cpu.sreg.i = false)
      (heads : Heading image (fun i _ => Quiet .task i ∧ i.keepsI = true)
        (fun w => w.pc = image.kYieldAdr + 1 + 123 ∧ AtTask image top (m.saved image first) w) m.cpu)
  /-- The scheduler's switch is about to return to the selected task. -/
  | returning (called : m.schedulerLeft ≠ none) (shadow : m.shadow = true)
      (pc : m.cpu.pc = image.kYieldAdr + 1 + 123 + 1)
      (ends : AtTask image top (m.saved image first) m.cpu)

/-- The places of a state in which the scheduler runs with the timer masked, up to the flags of the task it switches
to. -/
inductive SchedulingPlace (m : Machine) : Prop where
  /-- The scheduler runs towards the body of its loop. -/
  | prologue (heads : Heading image (fun i c => Quiet .scheduling i ∧ Masked c.mem)
        (fun u => u.pc = image.startAdr + 72 ∧ LoopState top first m.rounds m.taskLeft (u.sp + 1) u.mem) m.cpu)
  /-- The body of the loop runs. -/
  | deciding (code : image.body m.cpu.pc = true)
      (loop : LoopState top first m.rounds m.taskLeft m.loopSp m.cpu.mem)
  /-- The scheduler calls `k_yield`. -/
  | calls (pc : m.cpu.pc = image.callAdr) (stack : m.cpu.sp = m.loopSp)
      (loop : LoopState top first m.rounds m.taskLeft m.loopSp m.cpu.mem) (sp : Word) (ctx : Context)
      (schedules : Schedules image top m.cpu.mem sp ctx)
  /-- The scheduler has called `k_yield`. -/
  | entering (pc : m.cpu.pc = image.kYieldAdr) (stack : m.cpu.sp = m.loopSp - 3)
      (returns : ReturnsTo m.cpu.mem m.cpu.sp (image.callAdr + 2))
      (loop : LoopState top first m.rounds m.taskLeft m.loopSp m.cpu.mem) (sp : Word) (ctx : Context)
      (schedules : Schedules image top m.cpu.mem sp ctx)
  /-- The scheduler's switch runs up to the flags of the selected task. -/
  | switching (called : m.schedulerLeft ≠ none) (disabled : m.cpu.sreg.i = false)
      (heads : Heading image (fun i _ => Quiet .scheduling i ∧ i.keepsI = true)
        (AtFlags image top (m.saved image first)) m.cpu)

/-- A task's switch restores the scheduler's context. -/
structure ResumingPlace (m : Machine) : Prop where
  called : m.schedulerLeft ≠ none
  again : m.rounds ≠ 0
  heads : ∃ e, m.taskLeft = some e ∧ Heading image (fun i _ => Quiet .resuming i)
    (AtReturn image top (schedulerContext image first (m.rounds - 1) m.schedulerLeft) (e.sp - 33)) m.cpu

/-- The scheduler runs, the timer not yet masked. -/
structure ResumedPlace (m : Machine) : Prop where
  again : m.rounds ≠ 0
  heads : ∃ e, m.taskLeft = some e ∧
    Heading image (fun i _ => Quiet .resumed i) (AtMask image top (e.sp - 33)) m.cpu

/-- One register of the selected task is still to be restored. -/
structure RestoringPlace (m : Machine) : Prop where
  called : m.schedulerLeft ≠ none
  masked : Masked m.cpu.mem
  pop : image.program m.cpu.pc = some (.pop 0)
  restored : Restored image top (m.saved image first) ((Instr.pop 0).exec image.program m.cpu)

inductive Located (m : Machine) : Prop where
  | task (phase : m.phase = .task) (place : TaskPlace image top first m)
  | resuming (phase : m.phase = .resuming) (place : ResumingPlace image top first m)
  | resumed (phase : m.phase = .resumed) (place : ResumedPlace image top m)
  | scheduling (phase : m.phase = .scheduling) (place : SchedulingPlace image top first m)
  | restoring (phase : m.phase = .restoring) (place : RestoringPlace image top first m)

end

variable {image : SchedulerImage} {top : Word} {first : Context} {m : Machine}

/-! ## The places of each phase -/

theorem Located.task_place (h : Located image top first m) (phase : m.phase = .task) : TaskPlace image top first m := by
  cases h with
  | task _ place => exact place
  | resuming other => cases phase.symm.trans other
  | resumed other => cases phase.symm.trans other
  | scheduling other => cases phase.symm.trans other
  | restoring other => cases phase.symm.trans other

theorem Located.resuming_place (h : Located image top first m) (phase : m.phase = .resuming) :
    ResumingPlace image top first m := by
  cases h with
  | resuming _ place => exact place
  | task other => cases phase.symm.trans other
  | resumed other => cases phase.symm.trans other
  | scheduling other => cases phase.symm.trans other
  | restoring other => cases phase.symm.trans other

theorem Located.resumed_place (h : Located image top first m) (phase : m.phase = .resumed) :
    ResumedPlace image top m := by
  cases h with
  | resumed _ place => exact place
  | task other => cases phase.symm.trans other
  | resuming other => cases phase.symm.trans other
  | scheduling other => cases phase.symm.trans other
  | restoring other => cases phase.symm.trans other

theorem Located.scheduling_place (h : Located image top first m) (phase : m.phase = .scheduling) :
    SchedulingPlace image top first m := by
  cases h with
  | scheduling _ place => exact place
  | task other => cases phase.symm.trans other
  | resuming other => cases phase.symm.trans other
  | resumed other => cases phase.symm.trans other
  | restoring other => cases phase.symm.trans other

theorem TaskPlace.compareMatch (h : TaskPlace image top first m) :
    TaskPlace image top first { m with pending := true } := by
  cases h with
  | computing task code room => exact .computing ⟨task.phase, task.called, task.parked, task.saved⟩ code room
  | calling task pc room => exact .calling ⟨task.phase, task.called, task.parked, task.saved⟩ pc room
  | saving called disabled e left heads => exact .saving called disabled e left heads
  | leaving called disabled heads => exact .leaving called disabled heads
  | returning called shadow pc ends => exact .returning called shadow pc ends

theorem SchedulingPlace.compareMatch (h : SchedulingPlace image top first m) :
    SchedulingPlace image top first { m with pending := true } := by
  cases h with
  | prologue heads => exact .prologue heads
  | deciding code loop => exact .deciding code loop
  | calls pc stack loop sp ctx schedules => exact .calls pc stack loop sp ctx schedules
  | entering pc stack returns loop sp ctx schedules => exact .entering pc stack returns loop sp ctx schedules
  | switching called disabled heads => exact .switching called disabled heads

theorem Located.compareMatch (h : Located image top first m) : Located image top first { m with pending := true } := by
  cases h with
  | task phase place => exact .task phase place.compareMatch
  | resuming phase place => exact .resuming phase ⟨place.called, place.again, place.heads⟩
  | resumed phase place => exact .resumed phase ⟨place.again, place.heads⟩
  | scheduling phase place => exact .scheduling phase place.compareMatch
  | restoring phase place => exact .restoring phase ⟨place.called, place.masked, place.pop, place.restored⟩

/-! ## What a task keeps -/

theorem Parked.kept {mem mem' : Memory} (h : Parked top mem) (same : ∀ a, Kept top a → mem' a = mem a) :
    Parked top mem' where
  scheduler := (readWord_congr (same _ (.inr (by decide))) (same _ (.inr (by decide)))).trans h.scheduler
  next := (readWord_congr (same _ (.inr (by decide))) (same _ (.inr (by decide)))).trans h.next

theorem SavedContext.kept {mem mem' : Memory} {ctx : Context} (h : SavedContext mem (top - 36) ctx)
    (same : ∀ a, Kept top a → mem' a = mem a) : SavedContext mem' (top - 36) ctx := by
  apply h.congr
  intro a inside
  rw [BitVec.sub_add_cancel] at inside
  exact same a (.inl inside)

/-- A return address a task pushes on its own stack is outside what it keeps. -/
theorem TaskRoom.push_kept {sp : Word} {n : Nat} (room : TaskRoom top sp n) (three : 3 ≤ n) (mem : Memory) (pc : Pc) :
    ∀ a, Kept top a → pushBytes mem sp (pcBytes pc) a = mem a := by
  intro a kept
  apply pushBytes_outside
  show 3 ≤ (sp - a).toNat
  rcases kept with inside | cell
  · exact Nat.le_trans three (room.apart a inside)
  · have cells : [nextTaskSpAdr, nextTaskSpAdr + 1, schedulerTaskSpAdr, schedulerTaskSpAdr + 1] ⊆ switchCells := by
      decide
    exact Nat.le_trans three (room.clear a (cells cell))

/-! ## Tasks -/

/-- A task's compiled code runs only where the task computes. -/
theorem Located.of_taskCode (h : Located image top first m) (phase : m.phase = .task)
    (code : image.TaskCode m.cpu.pc) : TaskState image top first m ∧ TaskRoom top m.cpu.sp 40 := by
  cases h.task_place phase with
  | computing task _ room => exact ⟨task, room⟩
  | calling _ pc _ => exact absurd (pc ▸ code.1) image.kYield_known
  | saving _ _ _ _ heads =>
    refine absurd code.1 (heads.known ?_)
    rintro u ⟨⟨base, at_base, -, pc⟩, -⟩
    rw [pc, at_base.scheduler.1]
    exact Option.some_ne_none _
  | leaving _ _ heads =>
    refine absurd code.1 (heads.known ?_)
    rintro u ⟨pc, -⟩
    rw [pc, image.kYield_sei]
    exact Option.some_ne_none _
  | returning _ _ pc _ =>
    rw [SchedulerImage.TaskCode, pc, image.kYield_ret] at code
    cases code.1

theorem Located.compute {cpu : Cpu} (h : Located image top first m) (runs : TaskRuns image top m cpu) :
    Located image top first { m with cpu := cpu, shadow := false } := by
  obtain ⟨task, -⟩ := h.of_taskCode runs.phase runs.code
  have state : TaskState image top first { m with cpu := cpu, shadow := false } :=
    ⟨task.phase, task.called, task.parked.kept runs.kept, SavedContext.kept task.saved runs.kept⟩
  exact .task task.phase (.computing state runs.stays runs.room)

theorem Located.yield (back : Pc) (h : Located image top first m) (phase : m.phase = .task)
    (code : image.TaskCode m.cpu.pc) :
    Located image top first
      { m with cpu := { m.cpu.pushPc back with pc := image.kYieldAdr }, shadow := false } := by
  obtain ⟨task, room⟩ := h.of_taskCode phase code
  have same := room.push_kept (by decide) m.cpu.mem back
  refine .task phase (.calling ⟨phase, task.called, task.parked.kept same, SavedContext.kept task.saved same⟩ rfl ?_)
  show TaskRoom top (m.cpu.sp - 3 + 3) 40
  rw [BitVec.sub_add_cancel]
  exact room

theorem TaskRoom.mono {sp : Word} {k n : Nat} (room : TaskRoom top sp n) (fewer : k ≤ n) : TaskRoom top sp k where
  toRoom := room.toRoom.mono fewer
  apart a inside := Nat.le_trans fewer (room.apart a inside)

/-- Below a return address there is room for three bytes less. -/
theorem TaskRoom.below {sp : Word} {n : Nat} (room : TaskRoom top (sp + 3) (n + 3)) : TaskRoom top sp n where
  sram := by
    have := room.sram
    bv_omega
  clear a cell := by
    have := room.clear a cell
    bv_omega
  apart a inside := by
    have := room.apart a inside
    bv_omega

/-- Where the interrupt can be taken from a task. -/
theorem Located.of_interruptible (h : Located image top first m) (phase : m.phase = .task)
    (enabled : m.interruptible = true) : TaskState image top first m ∧ TaskRoom top m.cpu.sp 37 := by
  obtain ⟨on, -, -, noShadow⟩ := takesInterrupt_iff.mp enabled
  cases h.task_place phase with
  | computing task _ room => exact ⟨task, room.mono (by decide)⟩
  | calling task _ room => exact ⟨task, room.below⟩
  | saving _ disabled => rw [disabled] at on; cases on
  | leaving _ disabled => rw [disabled] at on; cases on
  | returning _ shadow => rw [shadow] at noShadow; cases noShadow

/-- The handler and `k_yield` enter a switch with the return address pushed. -/
theorem heading_task_switch {e : Cpu} {ctx : Context} (code : ContextSwtichAt image.program e.pc)
    (ends : SwitchEnds image.program e.pc) (room : TaskRoom top (e.sp + 3) 37) (topRoom : Room top 73)
    (parked : Parked top e.mem) (saved : SavedContext e.mem (top - 36) ctx) :
    Heading image (fun i _ => Quiet .task i ∧ i.keepsI = true) (AtSelection image top ctx (e.sp - 33)) e := by
  apply heading_selection code ends room.clear parked saved
  · intro a cell
    exact Nat.le_trans (by decide) (topRoom.clear a cell)
  · intro a inside
    have := room.apart a inside
    bv_omega

/-- An interrupted task's switch runs to the selection of the scheduler. -/
theorem heading_interrupted (topRoom : Room top 73) (task : TaskState image top first m)
    (room : TaskRoom top m.cpu.sp 37) :
    Heading image (fun i _ => Quiet .task i ∧ i.keepsI = true)
      (AtSelection image top (m.saved image first) ((m.cpu.interrupt timer1CompaVector).sp - 33))
      (m.cpu.interrupt timer1CompaVector) := by
  have same := room.push_kept (by decide) m.cpu.mem m.cpu.pc
  have jumped : Runs image.program (fun i _ => Quiet .task i ∧ i.keepsI = true) 1
      (m.cpu.interrupt timer1CompaVector) (handlerEntered image.toImage m.cpu) :=
    .one (i := .jmp image.timer1CompaVectAdr) image.vector.1 (by simp [Quiet, Phase.next, Instr.keepsI])
  apply Heading.prepend jumped
  apply heading_task_switch image.handler_switch (.inl image.handler_reti) _ topRoom (task.parked.kept same)
    (SavedContext.kept task.saved same)
  show TaskRoom top (m.cpu.sp - 3 + 3) 37
  rw [BitVec.sub_add_cancel]
  exact room

theorem Located.interrupt (topRoom : Room top 73) (h : Located image top first m) (phase : m.phase = .task)
    (enabled : m.interruptible = true) : Located image top first m.interrupted := by
  obtain ⟨task, room⟩ := h.of_interruptible phase enabled
  exact .task phase (.saving task.called rfl _ (if_pos phase) (heading_interrupted topRoom task room))

/-! ## The body of the loop -/

/-- The compiled body runs only where the loop is in it. -/
theorem Located.of_body (h : Located image top first m) (phase : m.phase = .scheduling)
    (body : image.body m.cpu.pc = true) : LoopState top first m.rounds m.taskLeft m.loopSp m.cpu.mem := by
  cases h.scheduling_place phase with
  | deciding _ loop => exact loop
  | prologue heads =>
    refine absurd (image.compiled _ body) (heads.known ?_)
    rintro u ⟨pc, -⟩
    rw [pc, image.loopCode.pop]
    exact Option.some_ne_none _
  | calls pc => exact absurd pc (image.callCode _ body)
  | entering pc => exact absurd (pc ▸ image.compiled _ body) image.kYield_known
  | switching _ _ heads =>
    refine absurd (image.compiled _ body) (heads.known ?_)
    rintro u ⟨out, -⟩
    rw [out]
    exact Option.some_ne_none _

theorem Located.schedule {cpu : Cpu} (h : Located image top first m) (runs : BodyRuns image top m cpu) :
    Located image top first { m with cpu := cpu, shadow := false } := by
  have loop := h.of_body runs.phase runs.code
  have kept : LoopState top first m.rounds m.taskLeft m.loopSp cpu.mem := {
    masked := by
      rw [Masked, runs.kept timsk1 (.inl (by decide))]
      exact loop.masked
    scheduler := (readWord_congr (runs.kept _ (.inl (by decide))) (runs.kept _ (.inl (by decide)))).trans loop.scheduler
    prev := by
      intro e left
      exact (readWord_congr (runs.kept _ (.inl (by decide))) (runs.kept _ (.inl (by decide)))).trans (loop.prev e left)
    stack := by
      rcases loop.stack with ⟨none, stack, saved⟩ | later
      · refine .inl ⟨none, stack, saved.congr ?_⟩
        intro a inside
        apply runs.kept a (.inr _)
        rw [stack]
        bv_omega
      · exact .inr later }
  rcases runs.stays with code | ⟨pc, stack, sp, ctx, schedules⟩
  · exact .scheduling runs.phase (.deciding code kept)
  · exact .scheduling runs.phase (.calls pc stack kept sp ctx schedules)

/-! ## Instructions of a task's switch -/

theorem AtSelection.fetch {ctx : Context} {sp : Word} {u : Cpu} (h : AtSelection image top ctx sp u) :
    image.program u.pc = some (.ldi 30 (lo8 schedulerTaskSpAdr)) := by
  obtain ⟨base, code, -, pc⟩ := h.code
  rw [pc]
  exact code.scheduler.1

theorem AtMask.fetch {sp : Word} {w : Cpu} (h : AtMask image top sp w) :
    image.program w.pc = some (.sts timsk1 16) := by
  rw [h.pc]
  exact image.loopCode.sts

/-- A task's call of `k_yield` runs to the selection of the scheduler. -/
theorem heading_yielded {c : Cpu} {ctx : Context} (topRoom : Room top 73) (pc : c.pc = image.kYieldAdr)
    (room : TaskRoom top (c.sp + 3) 40) (parked : Parked top c.mem) (saved : SavedContext c.mem (top - 36) ctx) :
    Heading image (fun i _ => Quiet .task i ∧ i.keepsI = true) (AtSelection image top ctx (c.sp - 33))
      (Instr.cli.exec image.program c) := by
  have start : (Instr.cli.exec image.program c).pc = image.kYieldAdr + 1 := by
    rw [Instr.exec_straight rfl, pc]
    rfl
  have code : ContextSwtichAt image.program (Instr.cli.exec image.program c).pc := by
    rw [start]
    exact image.kYield_parts.1
  have ends : SwitchEnds image.program (Instr.cli.exec image.program c).pc := by
    have ret := image.kYield_ret
    rw [BitVec.add_assoc (image.kYieldAdr + 1)] at ret
    rw [start]
    exact .inr ⟨image.kYield_sei, ret⟩
  exact heading_task_switch code ends (room.mono (by decide)) topRoom parked saved

theorem Located.cli_task (topRoom : Room top 73) (task : TaskState image top first m) (pc : m.cpu.pc = image.kYieldAdr)
    (room : TaskRoom top (m.cpu.sp + 3) 40) : Located image top first (m.executed image .cli) := by
  have ghosts : (m.executed image .cli).saved image first = m.saved image first := by
    simp [Machine.executed, Machine.saved, task.phase, Phase.next]
  refine .task ?_ (.saving ?_ rfl (Instr.cli.exec image.program m.cpu) ?_ ?_)
  · simp [Machine.executed, task.phase, Phase.next]
  · simpa [Machine.executed, task.phase] using task.called
  · simp [Machine.executed, task.phase]
  · rw [ghosts]
    exact heading_yielded topRoom pc room task.parked task.saved

theorem Located.saving_step {e : Cpu} {i : Instr} (topRoom : Room top 73) (phase : m.phase = .task)
    (called : m.schedulerLeft ≠ none) (disabled : m.cpu.sreg.i = false) (left : m.taskLeft = some e)
    (heads : Heading image (fun i _ => Quiet .task i ∧ i.keepsI = true)
      (AtSelection image top (m.saved image first) (e.sp - 33)) m.cpu)
    (fetch : image.program m.cpu.pc = some i) : Located image top first (m.executed image i) := by
  rcases heads.step fetch with selection | ⟨⟨quiet, keepsI⟩, rest⟩
  · cases fetch.symm.trans selection.fetch
    have clear : Clear top 36 := fun a cell => Nat.le_trans (by decide) (topRoom.clear a cell)
    have heads := heading_return clear selection
    refine .resuming ?_ ⟨?_, ?_, e, ?_, ?_⟩
    · simp [Machine.executed, phase, Phase.next]
    · simpa [Machine.executed, phase] using called
    · simp [Machine.executed, phase, Phase.next]
    · simpa [Machine.executed] using left
    · simpa [Machine.executed, Machine.saved, phase, Phase.next] using heads
  · have known := rest.known fun u selection => by
      rw [selection.fetch]
      exact Option.some_ne_none _
    rw [executed_quiet (phase ▸ quiet) known]
    exact .task phase (.saving called ((Instr.exec_keepsI keepsI m.cpu).trans disabled) e left rest)

/-- What a return from a switch does, with or without enabling interrupts. -/
theorem exec_return {i : Instr} (ret : i = .ret ∨ i = .reti) (program : Program) (s : Cpu) :
    (i.exec program s).pc = returnAddress s.mem s.sp ∧ (i.exec program s).sp = s.sp + 3 ∧
      (i.exec program s).mem = s.mem ∧ (i.exec program s).regs = s.regs := by
  rcases ret with rfl | rfl <;> exact ⟨rfl, rfl, rfl, rfl⟩

theorem AtReturn.ret {ctx : Context} {sp : Word} {v : Cpu} {i : Instr} (h : AtReturn image top ctx sp v)
    (fetch : image.program v.pc = some i) : i = .ret ∨ i = .reti := by
  rcases h.fetch with ⟨ret, -⟩ | reti
  · exact .inl (Option.some.inj (fetch.symm.trans ret))
  · exact .inr (Option.some.inj (fetch.symm.trans reti))

theorem AtReturn.known {ctx : Context} {sp : Word} {v : Cpu} (h : AtReturn image top ctx sp v) :
    image.program v.pc ≠ none := by
  rcases h.fetch with ⟨fetch, -⟩ | fetch <;> rw [fetch] <;> exact Option.some_ne_none _

/-- Every context of the scheduler returns into its loop. -/
theorem schedulerContext_resumes (start : first.pc = image.startAdr + 13) (rounds : Nat) (left : Option Cpu) :
    image.Resumes (schedulerContext image first rounds left).pc := by
  cases rounds with
  | zero => exact .inl start
  | succ n =>
    cases left with
    | none => exact .inl start
    | some e => exact .inr rfl

theorem Located.resuming_step {e : Cpu} {i : Instr} (topRoom : Room top 73) (start : first.pc = image.startAdr + 13)
    (phase : m.phase = .resuming) (called : m.schedulerLeft ≠ none) (again : m.rounds ≠ 0)
    (left : m.taskLeft = some e)
    (heads : Heading image (fun i _ => Quiet .resuming i)
      (AtReturn image top (schedulerContext image first (m.rounds - 1) m.schedulerLeft) (e.sp - 33)) m.cpu)
    (fetch : image.program m.cpu.pc = some i) : Located image top first (m.executed image i) := by
  rcases heads.step fetch with returns | ⟨quiet, rest⟩
  · have ret := returns.ret fetch
    obtain ⟨pc, sp, mem, -⟩ := exec_return ret image.program m.cpu
    rw [returns.returns.returnAddress] at pc
    have stack : (i.exec image.program m.cpu).sp = top := by
      rw [sp, returns.stack, BitVec.sub_add_cancel]
    have notCli : i ≠ .cli := by
      rcases ret with rfl | rfl <;> decide
    have heads : Heading image (fun i _ => Quiet .resumed i) (AtMask image top (e.sp - 33))
        (i.exec image.program m.cpu) := by
      apply heading_mask _ stack
      · intro a cell
        exact Nat.le_trans (by decide) (topRoom.clear a cell)
      · rw [mem]
        exact returns.prev
      · rw [mem]
        exact returns.scheduler
      · rw [pc]
        exact schedulerContext_resumes start _ _
    refine .resumed ?_ ⟨?_, e, ?_, heads⟩
    · simp [Machine.executed, phase, Phase.next, ret]
    · simpa [Machine.executed, phase] using again
    · simpa [Machine.executed, notCli] using left
  · have known := rest.known fun v returns => returns.known
    rw [executed_quiet (phase ▸ quiet) known]
    exact .resuming phase ⟨called, again, e, left, rest⟩

theorem Located.resumed_step {e : Cpu} {i : Instr} (phase : m.phase = .resumed) (again : m.rounds ≠ 0)
    (left : m.taskLeft = some e)
    (heads : Heading image (fun i _ => Quiet .resumed i) (AtMask image top (e.sp - 33)) m.cpu)
    (fetch : image.program m.cpu.pc = some i) : Located image top first (m.executed image i) := by
  rcases heads.step fetch with mask | ⟨quiet, rest⟩
  · cases fetch.symm.trans mask.fetch
    have cell : ∀ {a}, a ≠ timsk1 →
        ((Instr.sts timsk1 16).exec image.program m.cpu).mem a = m.cpu.mem a := fun other => Function.update_of_ne other _ _
    refine .scheduling ?_ (.prologue (.arrived ⟨?_, ?_, ?_, ?_, ?_⟩))
    · simp [Machine.executed, phase, Phase.next]
    · show m.cpu.pc + 2 = _
      rw [mask.pc, BitVec.add_assoc]
      rfl
    · show (Function.update m.cpu.mem timsk1 (m.cpu.regs 16) timsk1).getLsbD ocie1a = false
      rw [Function.update_self]
      exact mask.masked
    · exact (readWord_congr (cell (by decide)) (cell (by decide))).trans mask.scheduler
    · intro e' left'
      have same : some e = some e' := by simpa [Machine.executed, left] using left'
      cases same
      exact (readWord_congr (cell (by decide)) (cell (by decide))).trans mask.prev
    · refine .inr ⟨?_, ?_⟩
      · simpa [Machine.executed, phase] using again
      · show m.cpu.sp + 1 = top
        rw [mask.stack, BitVec.sub_add_cancel]
  · have known := rest.known fun w mask => by
      rw [mask.fetch]
      exact Option.some_ne_none _
    rw [executed_quiet (phase ▸ quiet) known]
    exact .resumed phase ⟨again, e, left, rest⟩

/-! ## Instructions of the scheduler -/

theorem Located.prologue_step {i : Instr} (phase : m.phase = .scheduling)
    (heads : Heading image (fun i c => Quiet .scheduling i ∧ Masked c.mem)
      (fun u => u.pc = image.startAdr + 72 ∧ LoopState top first m.rounds m.taskLeft (u.sp + 1) u.mem) m.cpu)
    (fetch : image.program m.cpu.pc = some i) : Located image top first (m.executed image i) := by
  rcases heads.step fetch with ⟨pc, loop⟩ | ⟨⟨quiet, -⟩, rest⟩
  · rw [pc] at fetch
    cases fetch.symm.trans image.loopCode.pop
    have entry : ((Instr.pop 16).exec image.program m.cpu).pc = image.entryAdr := by
      show m.cpu.pc + 1 = _
      rw [pc, BitVec.add_assoc]
      rfl
    refine .scheduling ?_ (.deciding ?_ ?_)
    · simp [Machine.executed, phase, Phase.next]
    · show image.body ((Instr.pop 16).exec image.program m.cpu).pc = true
      rw [entry]
      exact image.bodyAdr
    · have loopSp : (m.executed image (.pop 16)).loopSp = m.cpu.sp + 1 := if_pos entry
      have rounds : (m.executed image (.pop 16)).rounds = m.rounds := by simp [Machine.executed, phase]
      have left : (m.executed image (.pop 16)).taskLeft = m.taskLeft := by simp [Machine.executed]
      rw [loopSp, rounds, left]
      exact loop
  · have known := rest.known fun u goal => by
      rw [goal.1, image.loopCode.pop]
      exact Option.some_ne_none _
    rw [executed_quiet (phase ▸ quiet) known]
    exact .scheduling phase (.prologue rest)

/-- What lies outside the scheduler's stack is away from a switch entered in the loop. -/
theorem LoopStack.away {rounds : Nat} {sp a : Word} {mem : Memory} (stack : LoopStack top first rounds sp mem)
    (outside : 73 ≤ (top - a).toNat) : 37 ≤ (sp - a).toNat := by
  rcases stack with ⟨-, rfl, -⟩ | ⟨-, rfl⟩
  · bv_omega
  · omega

theorem LoopStack.clear {rounds : Nat} {sp : Word} {mem : Memory} (stack : LoopStack top first rounds sp mem)
    (topRoom : Room top 73) : Clear sp 37 := fun a cell => stack.away (topRoom.clear a cell)

/-- What the scheduler pushes at `sp` leaves the context of the first pass alone. -/
theorem LoopStack.push {rounds : Nat} {sp : Word} {mem mem' : Memory} (stack : LoopStack top first rounds sp mem)
    (same : ∀ a, 37 ≤ (sp - a).toNat → (top - a).toNat < 36 → mem' a = mem a) :
    LoopStack top first rounds sp mem' := by
  rcases stack with ⟨none, rfl, saved⟩ | later
  · refine .inl ⟨none, rfl, saved.congr ?_⟩
    intro a inside
    rw [BitVec.sub_add_cancel] at inside
    exact same a (by bv_omega) inside
  · exact .inr later

theorem Located.calls_step {i : Instr} {sp : Word} {ctx : Context} (topRoom : Room top 73)
    (phase : m.phase = .scheduling) (pc : m.cpu.pc = image.callAdr) (stack : m.cpu.sp = m.loopSp)
    (loop : LoopState top first m.rounds m.taskLeft m.loopSp m.cpu.mem)
    (schedules : Schedules image top m.cpu.mem sp ctx) (fetch : image.program m.cpu.pc = some i) :
    Located image top first (m.executed image i) := by
  rw [pc] at fetch
  cases fetch.symm.trans image.call.1
  have outside : ∀ {a}, 37 ≤ (m.loopSp - a).toNat →
      pushBytes m.cpu.mem m.cpu.sp (pcBytes (m.cpu.pc + 2)) a = m.cpu.mem a := by
    intro a away
    apply pushBytes_outside
    rw [stack]
    exact Nat.le_trans (by decide : 3 ≤ 37) away
  have cell : ∀ {a}, a ∈ switchCells → pushBytes m.cpu.mem m.cpu.sp (pcBytes (m.cpu.pc + 2)) a = m.cpu.mem a :=
    fun member => outside (loop.stack.clear topRoom _ member)
  have loopSp : (m.executed image (.call image.kYieldAdr)).loopSp = m.loopSp := if_neg image.kYield_not_entry
  have rounds : (m.executed image (.call image.kYieldAdr)).rounds = m.rounds := by simp [Machine.executed, phase]
  have left : (m.executed image (.call image.kYieldAdr)).taskLeft = m.taskLeft := by simp [Machine.executed]
  refine .scheduling ?_ (.entering rfl ?_ ?_ ?_ sp ctx ?_)
  · simp [Machine.executed, phase, Phase.next]
  · rw [loopSp, ← stack]
    rfl
  · rw [← pc]
    exact .pushed m.cpu.mem m.cpu.sp (m.cpu.pc + 2)
  · rw [loopSp, rounds, left]
    exact {
      masked := by
        show (pushBytes m.cpu.mem m.cpu.sp (pcBytes (m.cpu.pc + 2)) timsk1).getLsbD ocie1a = false
        rw [cell (by decide)]
        exact loop.masked
      scheduler := (readWord_congr (cell (by decide)) (cell (by decide))).trans loop.scheduler
      prev := fun e left => (readWord_congr (cell (by decide)) (cell (by decide))).trans (loop.prev e left)
      stack := loop.stack.push fun a away _ => outside away }
  · exact {
      next := (readWord_congr (cell (by decide)) (cell (by decide))).trans schedules.next
      nonzero := schedules.nonzero
      saved := schedules.saved.congr fun a inside => outside (loop.stack.away (schedules.task.apart a inside))
      task := schedules.task }

/-- The scheduler's call of `k_yield` runs to the flags of the scheduled task. -/
theorem heading_entered {c : Cpu} {rounds : Nat} {taskLeft : Option Cpu} {loopSp sp : Word} {ctx : Context}
    (topRoom : Room top 73) (pc : c.pc = image.kYieldAdr) (stack : c.sp = loopSp - 3)
    (returns : ReturnsTo c.mem c.sp (image.callAdr + 2)) (loop : LoopState top first rounds taskLeft loopSp c.mem)
    (schedules : Schedules image top c.mem sp ctx) :
    Heading image (fun i _ => Quiet .scheduling i ∧ i.keepsI = true)
      (AtFlags image top (schedulerContext image first rounds (some (Instr.cli.exec image.program c))))
      (Instr.cli.exec image.program c) := by
  let e := Instr.cli.exec image.program c
  have start : e.pc = image.kYieldAdr + 1 := by
    show c.pc + 1 = _
    rw [pc]
  have below : e.sp = loopSp - 3 := stack
  have topClear : Clear top 36 := fun a cell => Nat.le_trans (by decide) (topRoom.clear a cell)
  have clear : Clear (e.sp + 3) 37 := by
    rw [below, BitVec.sub_add_cancel]
    exact loop.stack.clear topRoom
  have saved : ∀ t, Saves e t → SavedContext t.mem (top - 36) (schedulerContext image first rounds (some e)) := by
    intro t half
    rcases loop.stack with ⟨none, lower, saved⟩ | ⟨again, upper⟩
    · rw [none]
      apply half.frame_kept saved topClear.frame
      intro a inside
      rw [BitVec.sub_add_cancel] at inside
      rw [below, lower]
      bv_omega
    · have enters : Enters e ⟨e.regs, e.sreg, image.callAdr + 2⟩ := ⟨rfl, rfl, returns⟩
      have frame := half.saved _ enters
      have same : e.sp - 33 = top - 36 := by
        rw [below, upper]
        bv_omega
      rw [same] at frame
      obtain ⟨n, rounds⟩ := Nat.exists_eq_succ_of_ne_zero again
      rw [rounds]
      exact frame
  apply heading_flags start clear topClear schedules _ loop.scheduler saved
  intro a inside
  have away := loop.stack.away (schedules.task.apart a inside)
  rw [below]
  bv_omega

theorem Located.entering_step {i : Instr} {sp : Word} {ctx : Context} (topRoom : Room top 73)
    (phase : m.phase = .scheduling) (pc : m.cpu.pc = image.kYieldAdr) (stack : m.cpu.sp = m.loopSp - 3)
    (returns : ReturnsTo m.cpu.mem m.cpu.sp (image.callAdr + 2))
    (loop : LoopState top first m.rounds m.taskLeft m.loopSp m.cpu.mem)
    (schedules : Schedules image top m.cpu.mem sp ctx) (fetch : image.program m.cpu.pc = some i) :
    Located image top first (m.executed image i) := by
  rw [pc] at fetch
  cases fetch.symm.trans image.kYield_cli
  have sched : (m.executed image .cli).saved image first =
      schedulerContext image first m.rounds (some (Instr.cli.exec image.program m.cpu)) := by
    simp [Machine.executed, Machine.saved, phase]
  refine .scheduling ?_ (.switching ?_ rfl ?_)
  · simp [Machine.executed, phase, Phase.next]
  · simp [Machine.executed, phase]
  · rw [sched]
    exact heading_entered topRoom pc stack returns loop schedules

theorem Located.switching_step {i : Instr} (phase : m.phase = .scheduling) (called : m.schedulerLeft ≠ none)
    (disabled : m.cpu.sreg.i = false)
    (heads : Heading image (fun i _ => Quiet .scheduling i ∧ i.keepsI = true)
      (AtFlags image top (m.saved image first)) m.cpu)
    (fetch : image.program m.cpu.pc = some i) : Located image top first (m.executed image i) := by
  rcases heads.step fetch with flags | ⟨⟨quiet, keepsI⟩, rest⟩
  · cases fetch.symm.trans flags.out
    have ghosts : (m.executed image (.out .sreg 0)).saved image first = m.saved image first := by
      simp [Machine.executed, Machine.saved, phase]
    refine .restoring ?_ ⟨?_, flags.restored.masked, flags.pop, ?_⟩
    · simp [Machine.executed, phase, Phase.next]
    · simpa [Machine.executed] using called
    · rw [ghosts]
      exact flags.restored
  · have known := rest.known fun u flags => by
      rw [flags.out]
      exact Option.some_ne_none _
    rw [executed_quiet (phase ▸ quiet) known]
    exact .scheduling phase (.switching called ((Instr.exec_keepsI keepsI m.cpu).trans disabled) rest)

theorem Located.restoring_step {i : Instr} (topRoom : Room top 73) (phase : m.phase = .restoring)
    (called : m.schedulerLeft ≠ none)
    (pop : image.program m.cpu.pc = some (.pop 0))
    (restored : Restored image top (m.saved image first) ((Instr.pop 0).exec image.program m.cpu))
    (fetch : image.program m.cpu.pc = some i) : Located image top first (m.executed image i) := by
  cases fetch.symm.trans pop
  have topClear : Clear top 36 := fun a cell => Nat.le_trans (by decide) (topRoom.clear a cell)
  have ghosts : (m.executed image (.pop 0)).saved image first = m.saved image first := by
    simp [Machine.executed, Machine.saved, phase]
  obtain ⟨-, -, -, -, -, disabled⟩ := restored.task
  refine .task ?_ (.leaving ?_ disabled ?_)
  · simp [Machine.executed, phase, Phase.next]
  · simpa [Machine.executed] using called
  · rw [ghosts]
    exact heading_sei topClear restored

theorem Located.leaving_step {i : Instr} (phase : m.phase = .task) (called : m.schedulerLeft ≠ none)
    (disabled : m.cpu.sreg.i = false)
    (heads : Heading image (fun i _ => Quiet .task i ∧ i.keepsI = true)
      (fun w => w.pc = image.kYieldAdr + 1 + 123 ∧ AtTask image top (m.saved image first) w) m.cpu)
    (fetch : image.program m.cpu.pc = some i) : Located image top first (m.executed image i) := by
  rcases heads.step fetch with ⟨pc, ends⟩ | ⟨⟨quiet, keepsI⟩, rest⟩
  · rw [pc] at fetch
    cases fetch.symm.trans image.kYield_sei
    have ghosts : (m.executed image .sei).saved image first = m.saved image first := by
      simp [Machine.executed, Machine.saved, phase, Phase.next]
    refine .task ?_ (.returning ?_ rfl ?_ ?_)
    · simp [Machine.executed, phase, Phase.next]
    · simpa [Machine.executed] using called
    · show m.cpu.pc + 1 = _
      rw [pc]
    · rw [ghosts]
      exact ⟨ends.timer, ends.parked, ends.sched, ends.task⟩
  · have known := rest.known fun w goal => by
      rw [goal.1, image.kYield_sei]
      exact Option.some_ne_none _
    rw [executed_quiet (phase ▸ quiet) known]
    exact .task phase (.leaving called ((Instr.exec_keepsI keepsI m.cpu).trans disabled) rest)

theorem Located.returning_step {i : Instr} (phase : m.phase = .task) (called : m.schedulerLeft ≠ none)
    (pc : m.cpu.pc = image.kYieldAdr + 1 + 123 + 1)
    (ends : AtTask image top (m.saved image first) m.cpu) (fetch : image.program m.cpu.pc = some i) :
    Located image top first (m.executed image i) := by
  rw [pc] at fetch
  cases fetch.symm.trans image.kYield_ret
  obtain ⟨sp, ctx, task, returns, stack⟩ := ends.task
  have ghosts : (m.executed image .ret).saved image first = m.saved image first := by
    simp [Machine.executed, Machine.saved, phase, Phase.next]
  have state : TaskState image top first (m.executed image .ret) := by
    refine ⟨?_, ?_, ends.parked, ?_⟩
    · simp [Machine.executed, phase, Phase.next]
    · simpa [Machine.executed] using called
    · rw [ghosts]
      exact ends.sched
  have back : (m.executed image .ret).cpu.pc = ctx.pc := returns.returnAddress
  have popped : (m.executed image .ret).cpu.sp = sp + 36 := by
    show m.cpu.sp + 3 = sp + 36
    rw [stack, BitVec.add_assoc]
    rfl
  rcases task.resumes with ⟨code, room⟩ | ⟨called, room⟩
  · refine .task state.phase (.computing state ?_ ?_)
    · rw [back]
      exact code
    · rw [popped]
      exact room
  · refine .task state.phase (.calling state (back.trans called) ?_)
    have same : sp + 36 + 3 = sp + 39 := by rw [BitVec.add_assoc]; rfl
    rw [popped, same]
    exact room

/-! ## Every step -/

theorem Located.instruction {i : Instr} (topRoom : Room top 73) (start : first.pc = image.startAdr + 13)
    (h : Located image top first m) (fetch : image.program m.cpu.pc = some i) :
    Located image top first (m.executed image i) := by
  cases h with
  | task phase place =>
    cases place with
    | computing _ code => cases code.1.symm.trans fetch
    | calling task pc room =>
      rw [pc] at fetch
      cases fetch.symm.trans image.kYield_cli
      exact .cli_task topRoom task pc room
    | saving called disabled e left heads => exact .saving_step topRoom phase called disabled left heads fetch
    | leaving called disabled heads => exact .leaving_step phase called disabled heads fetch
    | returning called _ pc ends => exact .returning_step phase called pc ends fetch
  | resuming phase place =>
    obtain ⟨called, again, e, left, heads⟩ := place
    exact .resuming_step topRoom start phase called again left heads fetch
  | resumed phase place =>
    obtain ⟨again, e, left, heads⟩ := place
    exact .resumed_step phase again left heads fetch
  | scheduling phase place =>
    cases place with
    | prologue heads => exact .prologue_step phase heads fetch
    | deciding code => cases (image.compiled _ code).symm.trans fetch
    | calls pc stack loop sp ctx schedules => exact .calls_step topRoom phase pc stack loop schedules fetch
    | entering pc stack returns loop sp ctx schedules =>
      exact .entering_step topRoom phase pc stack returns loop schedules fetch
    | switching called disabled heads => exact .switching_step phase called disabled heads fetch
  | restoring phase place => exact .restoring_step topRoom phase place.called place.pop place.restored fetch

/-- **Every step keeps the places**, as long as no interrupt is taken from the scheduler. -/
theorem Located.step {event : Event} {m' : Machine} (topRoom : Room top 73) (start : first.pc = image.startAdr + 13)
    (h : Located image top first m) (step : Step image top m event m')
    (alone : event = .interrupt → m.phase = .task) : Located image top first m' := by
  cases step with
  | compareMatch => exact h.compareMatch
  | interrupt enabled => exact h.interrupt topRoom (alone rfl) enabled
  | instruction i fetch => exact h.instruction topRoom start fetch
  | compute cpu runs => exact h.compute runs
  | yield back phase code _ => exact h.yield back phase code
  | schedule cpu runs => exact h.schedule runs

end Simplos
