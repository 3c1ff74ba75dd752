import Simplos.Switch.Progress

/-!
# The stack of the scheduler

`scheduler_task_sp` is written once. The first switch to the scheduler takes the context `start_scheduler`
pushed; from then on the loop runs with a stack pointer 36 bytes higher, and every call of `k_yield`
pushes a return address and a context exactly where the first one was.
-/

namespace Simplos
set_option autoImplicit false
open Avr

variable {image : SchedulerImage} {top : Word} {first : Context} {m m' : Machine}

/-! ## The two ends of a switch to the scheduler -/

/-- A step that leaves a phase is the instruction that ends it. -/
theorem Step.leaves {event : Event} (step : Step image top m event m') (left : m'.phase ≠ m.phase) :
    ∃ i, image.program m.cpu.pc = some i ∧ m' = m.executed image i ∧ m.phase.next i ≠ m.phase := by
  cases step with
  | instruction i fetch => exact ⟨i, fetch, rfl, left⟩
  | compareMatch => exact absurd rfl left
  | interrupt => exact absurd rfl left
  | compute => exact absurd rfl left
  | yield => exact absurd rfl left
  | schedule => exact absurd rfl left

/-- Where a run of quiet instructions meets one that is not quiet, it has arrived. -/
theorem Heading.arrives {P : Instr → Cpu → Prop} {Goal : Cpu → Prop} {c : Cpu} {i : Instr} {p : Phase}
    (h : Heading image P Goal c) (quiet : ∀ i c, P i c → Quiet p i) (fetch : image.program c.pc = some i)
    (loud : p.next i ≠ p) : Goal c := by
  rcases h.step fetch with goal | ⟨holds, -⟩
  · exact goal
  · exact absurd (quiet i c holds).1 loud

/-- A task's switch selects the scheduler where its context is complete. -/
theorem Located.selects {i : Instr} (h : Located image top first m) (phase : m.phase = .task)
    (fetch : image.program m.cpu.pc = some i) (leaves : m.phase.next i ≠ m.phase) :
    m.schedulerLeft ≠ none ∧ ∃ e, m.taskLeft = some e ∧ AtSelection image top (m.saved image first) (e.sp - 33) m.cpu := by
  rw [phase] at leaves
  cases h.task_place phase with
  | saving called _ e left heads =>
    exact ⟨called, e, left, heads.arrives (fun _ _ holds => holds.1) fetch leaves⟩
  | computing _ code => cases code.1.symm.trans fetch
  | calling _ pc =>
    rw [pc] at fetch
    cases fetch.symm.trans image.kYield_cli
    exact absurd rfl leaves
  | leaving _ _ heads =>
    have ends := heads.arrives (fun _ _ holds => holds.1) fetch leaves
    rw [ends.1] at fetch
    cases fetch.symm.trans image.kYield_sei
    exact absurd rfl leaves
  | returning _ _ pc =>
    rw [pc] at fetch
    cases fetch.symm.trans image.kYield_ret
    exact absurd rfl leaves

/-- The switch returns to the scheduler where its context is restored. -/
theorem Located.resumes {i : Instr} (h : Located image top first m) (phase : m.phase = .resuming)
    (fetch : image.program m.cpu.pc = some i) (leaves : m.phase.next i ≠ m.phase) :
    m.schedulerLeft ≠ none ∧ m.rounds ≠ 0 ∧
      ∃ sp, AtReturn image top (schedulerContext image first (m.rounds - 1) m.schedulerLeft) sp m.cpu := by
  rw [phase] at leaves
  obtain ⟨called, again, e, -, heads⟩ := h.resuming_place phase
  exact ⟨called, again, _, heads.arrives (fun _ _ quiet => quiet) fetch leaves⟩

/-! ## The scheduler's context at every switch -/

/-- The scheduler's context after `rounds` switches to it, its latest call of `k_yield` having entered
the switch in `e`. -/
def latestContext (image : SchedulerImage) (first : Context) (rounds : Nat) (e : Cpu) : Context :=
  if rounds = 0 then first else ⟨e.regs, e.sreg, image.callAdr + 2⟩

theorem schedulerContext_some (image : SchedulerImage) (first : Context) (rounds : Nat) (e : Cpu) :
    schedulerContext image first rounds (some e) = latestContext image first rounds e := by
  cases rounds <;> rfl

/-- A switch from a task in `m` selects the scheduler in `m'`: its latest context is complete. -/
structure FindsContext (image : SchedulerImage) (top : Word) (first : Context) (m m' : Machine) (e : Cpu) : Prop where
  left : m.schedulerLeft = some e
  scheduler : readWord m'.cpu.mem schedulerTaskSpAdr = top - 36
  saved : SavedContext m'.cpu.mem (top - 36) (latestContext image first m.rounds e)
  counted : m'.rounds = m.rounds + 1

/-- A switch returns in `m'` to the scheduler's latest context, with the stack pointer `top`. -/
structure ResumesContext (image : SchedulerImage) (top : Word) (first : Context) (m m' : Machine) (e : Cpu) : Prop where
  left : m.schedulerLeft = some e
  sp : m'.cpu.sp = top
  pc : m'.cpu.pc = (latestContext image first (m.rounds - 1) e).pc
  regs : m'.cpu.regs = (latestContext image first (m.rounds - 1) e).regs

theorem Located.finds {event : Event} (h : Located image top first m) (step : Step image top m event m')
    (phase : m.phase = .task) (selected : m'.phase = .resuming) : ∃ e, FindsContext image top first m m' e := by
  have changed : m'.phase ≠ m.phase := by
    rw [selected, phase]
    decide
  obtain ⟨i, fetch, rfl, leaves⟩ := step.leaves changed
  obtain ⟨called, e, -, selection⟩ := h.selects phase fetch leaves
  obtain ⟨e, left⟩ := Option.ne_none_iff_exists'.mp called
  cases fetch.symm.trans selection.fetch
  have saved := selection.saved
  rw [Machine.saved, left, schedulerContext_some] at saved
  have counted : (m.executed image (.ldi 30 (lo8 schedulerTaskSpAdr))).rounds = m.rounds + 1 := by
    simp [Machine.executed, phase, Phase.next]
  exact ⟨e, left, selection.parked.scheduler, saved, counted⟩

theorem Located.resumesContext {event : Event} (h : Located image top first m) (step : Step image top m event m')
    (phase : m.phase = .resuming) (returned : m'.phase = .resumed) : ∃ e, ResumesContext image top first m m' e := by
  have changed : m'.phase ≠ m.phase := by
    rw [returned, phase]
    decide
  obtain ⟨i, fetch, rfl, leaves⟩ := step.leaves changed
  obtain ⟨called, -, sp, returns⟩ := h.resumes phase fetch leaves
  obtain ⟨e, left⟩ := Option.ne_none_iff_exists'.mp called
  rw [left, schedulerContext_some] at returns
  obtain ⟨pc, stack, -, regs⟩ := exec_return (returns.ret fetch) image.program m.cpu
  refine ⟨e, left, ?_, pc.trans returns.returns.returnAddress, regs.trans returns.regs⟩
  show (i.exec image.program m.cpu).sp = top
  rw [stack, returns.stack, BitVec.sub_add_cancel]

/-- **The scheduler's stack never drifts.** With `s` the state in which `start_scheduler` gets to
`SET_RETURN_POINT`: in every run in which the scheduler is not interrupted, every switch to it finds its
latest context complete at the stack pointer stored once, and resumes it with the stack pointer `s.sp`.
The first context is the one `SAVE_CONTEXT` pushes behind `SET_RETURN_POINT`, which returns to the jump to
`scheduler_loop_entry_point`; every later one returns behind the call of `k_yield`. -/
theorem scheduler_stack_never_drifts (image : SchedulerImage) (s : Cpu) (start : s.pc = image.startAdr)
    (room : Room s.sp 73) (masked : Masked s.mem) :
    ∃ (first : Context) (t : Cpu), FirstContext image s first ∧ steps image.program 61 s = some t ∧
      SavedContext t.mem (s.sp - 36) first ∧ image.program first.pc = some (.jmp (image.startAdr + 64)) ∧
      readWord t.mem schedulerTaskSpAdr = s.sp - 36 ∧
      ∀ pending m event m', Reaches image s.sp (started t pending) m → StepAlone image s.sp m event m' →
        (m.phase = .task → m'.phase = .resuming → ∃ e, FindsContext image s.sp first m m' e) ∧
        (m.phase = .resuming → m'.phase = .resumed → ∃ e, ResumesContext image s.sp first m m' e) := by
  obtain ⟨first, t, run, starts⟩ := starts image start room masked
  have jump : image.program first.pc = some (.jmp (image.startAdr + 64)) := by
    rw [starts.returns]
    exact image.returnPoint
  refine ⟨first, t, starts.context, run, starts.saved, jump, starts.scheduler, ?_⟩
  intro pending m event m' reached step
  have located := (started_located pending starts room).run room starts.returns reached
  exact ⟨located.finds step.1, located.resumesContext step.1⟩

/-! ### A concrete scheduler -/

/-- `start_scheduler` at 0x300, the compiled body of its loop at one address, the call of `k_yield` at
0x400. -/
def sampleScheduler : SchedulerImage where
  program :=
    load timer1CompaVector [.jmp 0x100] <| load 0x100 timer1CompaVect <| load 0x200 kYield <|
      load 0x300 (startSchedulerCode 0x340) <| load 0x400 [.call 0x200, .jmp 0x33F] fun _ => none
  timer1CompaVectAdr := 0x100
  kYieldAdr := 0x200
  vector := (placed_handlers _).1
  handler := (placed_handlers _).2.1
  yields := (placed_handlers _).2.2
  startAdr := 0x300
  fits := by decide
  start := placed_under_handlers (placed_load (by decide +kernel)) (by decide +kernel)
  body pc := decide (pc = 0x349)
  bodyAdr := by decide +kernel
  compiled := by
    intro pc code
    rw [of_decide_eq_true code]
    decide +kernel
  callAdr := 0x400
  call := placed_under_handlers ((placed_load (by decide)).load (by decide +kernel)) (by decide +kernel)
  callCode := by
    intro pc code
    rw [of_decide_eq_true code]
    decide

/-- `start_scheduler` at `SET_RETURN_POINT`, the timer masked. -/
def startingScheduler : Cpu where
  regs r := BitVec.ofNat 8 r.val
  sreg := ⟨true, false, false, false, false, false, true, false⟩
  sp := 0x1000
  pc := 0x300
  mem _ := 0

theorem startingScheduler_room : Room startingScheduler.sp 73 where
  sram := by
    show 0x200 + 73 ≤ (0x1000 : Word).toNat + 1
    decide
  clear := by
    show Clear 0x1000 73
    decide

/-- A task with its context saved in a block of its own. -/
def sampleContext : Context := ⟨fun r => BitVec.ofNat 8 r.val, ⟨false, false, false, false, false, false, false, false⟩, 0x500⟩

theorem sampleContext_task : TaskContext sampleScheduler 0x1000 0x7DC sampleContext where
  masked := rfl
  resumes := by
    have code : sampleScheduler.TaskCode 0x500 := by
      refine ⟨?_, ?_⟩ <;> decide +kernel
    have room : TaskRoom 0x1000 0x800 40 := by
      refine ⟨⟨by decide, by decide⟩, ?_⟩
      intro a inside
      bv_omega
    exact .inl ⟨code, room⟩
  apart := by
    intro a inside
    bv_omega

/-- The scheduler with its stack at 0x1000 saves its context there. It is selected any number of times, and each time the
switch returns to it with the stack pointer back at 0x1000: to the jump behind `SET_RETURN_POINT` in the first round,
behind its call of `k_yield` in every later one. -/
theorem scheduler_stack_never_drifts_from_0x1000 :
    ∃ (first : Context) (t : Cpu), steps sampleScheduler.program 61 startingScheduler = some t ∧
      SavedContext t.mem 0xFDC first ∧ first.regs 20 = 20 ∧
      sampleScheduler.program first.pc = some (.jmp 0x340) ∧ readWord t.mem schedulerTaskSpAdr = 0xFDC ∧
      ∀ n, ∃ m m', Reaches sampleScheduler 0x1000 (started t false) m ∧ m.rounds = n + 1 ∧ m.phase = .resuming ∧
        StepAlone sampleScheduler 0x1000 m .instruction m' ∧ m'.phase = .resumed ∧ m'.cpu.sp = 0x1000 ∧
        m'.cpu.pc = if n = 0 then 0x30D else 0x402 := by
  obtain ⟨first, t, ⟨c, -, sets, same⟩, run, saved, jump, stored, always⟩ :=
    scheduler_stack_never_drifts sampleScheduler startingScheduler rfl startingScheduler_room rfl
  have kept : first.regs 20 = 20 := by
    rw [same]
    exact sets.registers 20 (by decide)
  obtain ⟨first', t', run', starts⟩ := starts sampleScheduler (s := startingScheduler) rfl startingScheduler_room rfl
  cases run.symm.trans run'
  refine ⟨first, t, run, saved, kept, jump, stored, fun n => ?_⟩
  obtain ⟨m, selected, resuming, rounds⟩ :=
    started_goes_round false startingScheduler_room starts sampleContext_task (by decide) n
  have located :=
    (started_located false starts startingScheduler_room).run startingScheduler_room starts.returns selected.reaches
  obtain ⟨m₁, m₂, restored, phase, step, returned, counted, -⟩ := located.returns_to_scheduler resuming
  have reached := (selected.trans restored).reaches
  have alone : StepAlone sampleScheduler 0x1000 m₁ .instruction m₂ := ⟨step, by rintro ⟨⟩⟩
  obtain ⟨e, resumes⟩ := (always false m₁ .instruction m₂ reached alone).2 phase returned
  refine ⟨m₁, m₂, reached, counted.trans rounds, phase, alone, returned, resumes.sp, resumes.pc.trans ?_⟩
  rw [counted, rounds, latestContext, Nat.add_sub_cancel]
  split
  · rw [same]
    rfl
  · rfl

end Simplos
