import Simplos.Switch.Start

/-!
# Runs to the scheduler and back

In a run in which the scheduler is not interrupted every state is `Located`. Such runs exist: from its
start the scheduler gets to a task, and from any task, interrupted or not, the system gets to the scheduler and on
to the body of its loop, round after round.
-/

namespace Simplos
set_option autoImplicit false
open Avr

/-- A step of the system in which the scheduler is not interrupted. -/
def StepAlone (image : SchedulerImage) (top : Word) (m : Machine) (event : Event) (m' : Machine) : Prop :=
  Step image top m event m' ∧ (event = .interrupt → m.phase = .task)

/-- A run in which the scheduler is not interrupted gets from the first state to the second. -/
def Reaches (image : SchedulerImage) (top : Word) (m m' : Machine) : Prop :=
  ∃ events, Lib.Trace (StepAlone image top) m events m'

variable {image : SchedulerImage} {top : Word} {first : Context} {m m' : Machine}

/-- **Every run** of the system in which the scheduler is not interrupted stays in the known places. -/
theorem Located.run (topRoom : Room top 73) (start : first.pc = image.startAdr + 13)
    (h : Located image top first m) (reached : Reaches image top m m') : Located image top first m' := by
  obtain ⟨events, trace⟩ := reached
  exact trace.invariant (Located image top first) (fun _ _ _ located step => located.step topRoom start step.1 step.2) h

/-- A step of the code alone: no compare match comes and no interrupt is taken. -/
def StepCode (image : SchedulerImage) (top : Word) (m : Machine) (event : Event) (m' : Machine) : Prop :=
  Step image top m event m' ∧ event ≠ .compareMatch ∧ event ≠ .interrupt

/-- A run of the code alone gets from the first state to the second. -/
def Proceeds (image : SchedulerImage) (top : Word) (m m' : Machine) : Prop :=
  ∃ events, Lib.Trace (StepCode image top) m events m'

namespace Reaches

theorem trans {m₁ m₂ m₃ : Machine} (h : Reaches image top m₁ m₂) (h' : Reaches image top m₂ m₃) :
    Reaches image top m₁ m₃ := by
  obtain ⟨events, trace⟩ := h
  obtain ⟨events', trace'⟩ := h'
  exact ⟨events ++ events', trace.append trace'⟩

theorem one {event : Event} (step : Step image top m event m') (alone : event = .interrupt → m.phase = .task) :
    Reaches image top m m' := ⟨[event], .cons ⟨step, alone⟩ (.nil m')⟩

end Reaches

namespace Proceeds

theorem refl (m : Machine) : Proceeds image top m m := ⟨[], .nil m⟩

theorem trans {m₁ m₂ m₃ : Machine} (h : Proceeds image top m₁ m₂) (h' : Proceeds image top m₂ m₃) :
    Proceeds image top m₁ m₃ := by
  obtain ⟨events, trace⟩ := h
  obtain ⟨events', trace'⟩ := h'
  exact ⟨events ++ events', trace.append trace'⟩

theorem one {event : Event} (step : Step image top m event m') (own : event ≠ .compareMatch ∧ event ≠ .interrupt) :
    Proceeds image top m m' := ⟨[event], .cons ⟨step, own⟩ (.nil m')⟩

theorem instruction {i : Instr} (fetch : image.program m.cpu.pc = some i) :
    Proceeds image top m (m.executed image i) := .one (.instruction m i fetch) (by decide)

/-- The scheduler is not interrupted where nothing is. -/
theorem reaches (h : Proceeds image top m m') : Reaches image top m m' := by
  obtain ⟨events, trace⟩ := h
  exact ⟨events, trace.mono fun _ _ _ step => ⟨step.1, fun interrupted => absurd interrupted step.2.2⟩⟩

/-- A run of quiet known code is a run of the machine that changes nothing else. -/
theorem quiet (top : Word) {P : Instr → Cpu → Prop} {Goal : Cpu → Prop} (quiet : ∀ i c, P i c → Quiet m.phase i)
    (known : ∀ u, Goal u → image.program u.pc ≠ none) (heads : Heading image P Goal m.cpu) :
    ∃ u shadow, Proceeds image top m { m with cpu := u, shadow := shadow } ∧ Goal u := by
  obtain ⟨n, u, runs, goal⟩ := heads
  generalize start : m.cpu = c at runs
  induction runs generalizing m with
  | refl s =>
    subst start
    exact ⟨m.cpu, m.shadow, .refl m, goal⟩
  | next fetch holds rest ih =>
    subst start
    have next := executed_quiet (quiet _ _ holds) (Heading.known (P := P) known ⟨_, _, rest, goal⟩)
    obtain ⟨v, shadow, reached, arrived⟩ := ih (m := m.executed image _) (by rw [next]; exact quiet) goal
      (by rw [next])
    rw [next] at reached
    exact ⟨v, shadow, (next ▸ Proceeds.instruction fetch).trans reached, arrived⟩

end Proceeds

/-- Only `cli` enters a switch. -/
theorem Machine.executed_taskLeft {i : Instr} (other : i ≠ .cli) : (m.executed image i).taskLeft = m.taskLeft :=
  if_neg fun entered => other entered.1

/-- A round begins where a task's switch selects the scheduler. -/
theorem Machine.executed_rounds {i : Instr} (stays : ¬ (m.phase = .task ∧ m.phase.next i = .resuming)) :
    (m.executed image i).rounds = m.rounds := if_neg stays

/-! ## Entering `k_yield` -/

/-- A run of quiet code does not pass the entry of `k_yield`. -/
theorem Heading.not_entry {P : Instr → Cpu → Prop} {Goal : Cpu → Prop} {c : Cpu} {p : Phase}
    (quiet : ∀ i c, P i c → Quiet p i) (goal : ∀ u, Goal u → image.program u.pc ≠ some .cli)
    (heads : Heading image P Goal c) : c.pc ≠ image.kYieldAdr := by
  intro pc
  have fetch : image.program c.pc = some .cli := by
    rw [pc]
    exact image.kYield_cli
  rcases heads.step fetch with arrived | ⟨holds, -⟩
  · exact goal c arrived fetch
  · exact (quiet _ _ holds).2 rfl

/-- At the entry of `k_yield` a task has called it. -/
theorem Located.of_yielded (h : Located image top first m) (phase : m.phase = .task)
    (pc : m.cpu.pc = image.kYieldAdr) : TaskState image top first m ∧ TaskRoom top (m.cpu.sp + 3) 40 := by
  cases h.task_place phase with
  | calling task _ room => exact ⟨task, room⟩
  | computing _ code => exact absurd (pc ▸ code.1) image.kYield_known
  | saving _ _ _ _ heads =>
    refine absurd pc (heads.not_entry (fun _ _ holds => holds.1) ?_)
    intro u selection
    rw [selection.fetch]
    rintro ⟨⟩
  | leaving _ _ heads =>
    refine absurd pc (heads.not_entry (fun _ _ holds => holds.1) ?_)
    rintro u ⟨pc, -⟩
    rw [pc, image.kYield_sei]
    rintro ⟨⟩
  | returning _ _ ret =>
    have fetch := image.kYield_ret
    rw [← ret, pc, image.kYield_cli] at fetch
    cases fetch

/-- At the entry of `k_yield` the scheduler has called it, and the way to the flags of the scheduled task
is determined. -/
theorem Located.of_entered (topRoom : Room top 73) (h : Located image top first m) (phase : m.phase = .scheduling)
    (pc : m.cpu.pc = image.kYieldAdr) :
    ∃ sched, Heading image (fun i _ => Quiet .scheduling i ∧ i.keepsI = true) (AtFlags image top sched)
      (Instr.cli.exec image.program m.cpu) := by
  cases h.scheduling_place phase with
  | entering pc stack returns loop sp ctx schedules =>
    exact ⟨_, heading_entered topRoom pc stack returns loop schedules⟩
  | prologue heads =>
    refine absurd pc (heads.not_entry (fun _ _ holds => holds.1) ?_)
    rintro u ⟨pc, -⟩
    rw [pc, image.loopCode.pop]
    rintro ⟨⟩
  | deciding code => exact absurd (pc ▸ image.compiled _ code) image.kYield_known
  | calls call =>
    have fetch := image.call.1
    rw [← call, pc, image.kYield_cli] at fetch
    cases fetch
  | switching _ _ heads =>
    refine absurd pc (heads.not_entry (fun _ _ holds => holds.1) ?_)
    rintro u ⟨out, -⟩
    rw [out]
    rintro ⟨⟩

/-! ## From a task to the scheduler -/

/-- A task's switch gets to the selection of the scheduler. -/
theorem Proceeds.selects {ctx : Context} {sp : Word} (top : Word) (phase : m.phase = .task)
    (heads : Heading image (fun i _ => Quiet .task i ∧ i.keepsI = true) (AtSelection image top ctx sp) m.cpu) :
    ∃ m', Proceeds image top m m' ∧ m'.phase = .resuming ∧ m'.rounds = m.rounds + 1 ∧ m'.taskLeft = m.taskLeft := by
  obtain ⟨u, shadow, reached, selection⟩ := Proceeds.quiet top (fun i c holds => by rw [phase]; exact holds.1)
    (fun u selection => by rw [selection.fetch]; rintro ⟨⟩) heads
  refine ⟨_, reached.trans (.instruction selection.fetch), ?_, ?_, Machine.executed_taskLeft (by decide)⟩
  · simp [Machine.executed, phase, Phase.next]
  · simp [Machine.executed, phase, Phase.next]

/-- From a call of `k_yield` a task's switch gets to the selection of the scheduler. -/
theorem Located.selects_scheduler (topRoom : Room top 73) (h : Located image top first m) (phase : m.phase = .task)
    (pc : m.cpu.pc = image.kYieldAdr) :
    ∃ m', Proceeds image top m m' ∧ m'.phase = .resuming ∧ m'.rounds = m.rounds + 1 := by
  obtain ⟨task, room⟩ := h.of_yielded phase pc
  have entered : Proceeds image top m (m.executed image .cli) := .instruction (pc ▸ image.kYield_cli)
  have stays : (m.executed image .cli).phase = .task := by simp [Machine.executed, phase, Phase.next]
  have heads := heading_yielded topRoom pc room task.parked task.saved
  obtain ⟨m', reached, resuming, counted, -⟩ := Proceeds.selects top (m := m.executed image .cli) stays heads
  have same : (m.executed image .cli).rounds = m.rounds := by simp [Machine.executed, phase, Phase.next]
  exact ⟨m', entered.trans reached, resuming, by rw [counted, same]⟩

/-- **From any task** the system gets to the scheduler. -/
theorem Located.reaches_scheduler (topRoom : Room top 73) (h : Located image top first m) (phase : m.phase = .task)
    (code : image.TaskCode m.cpu.pc ∨ m.cpu.pc = image.kYieldAdr) :
    ∃ m', Proceeds image top m m' ∧ m'.phase = .resuming ∧ m'.rounds = m.rounds + 1 := by
  rcases code with code | pc
  · obtain ⟨m', reached, selected⟩ := (h.yield m.cpu.pc phase code).selects_scheduler topRoom phase rfl
    exact ⟨m', (Proceeds.one (.yield m m.cpu.pc phase code code) (by decide)).trans reached, selected⟩
  · exact h.selects_scheduler topRoom phase pc

/-- **From an interrupted task** the system gets to the scheduler. -/
theorem Located.interrupted_reaches_scheduler (topRoom : Room top 73) (h : Located image top first m)
    (phase : m.phase = .task) (enabled : m.interruptible = true) :
    ∃ m', Proceeds image top m.interrupted m' ∧ m'.phase = .resuming ∧
      m'.taskLeft = some (m.cpu.interrupt timer1CompaVector) := by
  obtain ⟨task, room⟩ := h.of_interruptible phase enabled
  have left : m.interrupted.taskLeft = some (m.cpu.interrupt timer1CompaVector) := if_pos phase
  obtain ⟨m', reached, resuming, -, same⟩ :=
    Proceeds.selects top (m := m.interrupted) phase (heading_interrupted topRoom task room)
  exact ⟨m', reached, resuming, same.trans left⟩

/-! ## To the body of the loop -/

/-- At the end of its prologue the scheduler enters the body of its loop. -/
theorem Proceeds.enters_body (top : Word) (phase : m.phase = .scheduling) (pc : m.cpu.pc = image.startAdr + 72) :
    ∃ m', Proceeds image top m m' ∧ m'.phase = .scheduling ∧ image.body m'.cpu.pc = true ∧ m'.rounds = m.rounds ∧
      m'.taskLeft = m.taskLeft := by
  refine ⟨m.executed image (.pop 16), .instruction (by rw [pc, image.loopCode.pop]), ?_, ?_,
    Machine.executed_rounds (by simp [phase]), Machine.executed_taskLeft (by decide)⟩
  · simp [Machine.executed, phase, Phase.next]
  · show image.body (m.cpu.pc + 1) = true
    rw [pc, BitVec.add_assoc]
    exact image.bodyAdr

/-- From its selection the system gets to a return to the scheduler. -/
theorem Located.returns_to_scheduler (h : Located image top first m) (phase : m.phase = .resuming) :
    ∃ m₁ m₂, Proceeds image top m m₁ ∧ m₁.phase = .resuming ∧ Step image top m₁ .instruction m₂ ∧
      m₂.phase = .resumed ∧ m₁.rounds = m.rounds ∧ m₂.rounds = m.rounds ∧ m₂.taskLeft = m.taskLeft := by
  obtain ⟨-, -, e, -, heads⟩ := h.resuming_place phase
  obtain ⟨v, shadow, restored, returns⟩ := Proceeds.quiet top (fun i c quiet => by rw [phase]; exact quiet)
    (fun v returns => returns.known) heads
  let m₁ : Machine := { m with cpu := v, shadow := shadow }
  obtain ⟨i, fetch, ret⟩ : ∃ i, image.program m₁.cpu.pc = some i ∧ (i = .ret ∨ i = .reti) := by
    rcases returns.fetch with ⟨fetch, -⟩ | fetch
    · exact ⟨_, fetch, .inl rfl⟩
    · exact ⟨_, fetch, .inr rfl⟩
  refine ⟨m₁, m₁.executed image i, restored, phase, .instruction m₁ i fetch, ?_, rfl, ?_, ?_⟩
  · simp [m₁, Machine.executed, phase, Phase.next, ret]
  · simp [m₁, Machine.executed, phase]
  · exact Machine.executed_taskLeft (by rcases ret with rfl | rfl <;> decide)

/-- **From the selection of the scheduler** the system gets to the body of its loop. -/
theorem Located.reaches_body (topRoom : Room top 73) (start : first.pc = image.startAdr + 13)
    (h : Located image top first m) (phase : m.phase = .resuming) :
    ∃ m', Proceeds image top m m' ∧ m'.phase = .scheduling ∧ image.body m'.cpu.pc = true ∧ m'.rounds = m.rounds ∧
      m'.taskLeft = m.taskLeft := by
  obtain ⟨m₁, m₂, restored, -, step, resumed, -, rounds₂, left₂⟩ := h.returns_to_scheduler phase
  have returned := restored.trans (.one step (by decide))
  obtain ⟨-, e, -, heads⟩ := (h.run topRoom start returned.reaches).resumed_place resumed
  obtain ⟨w, shadow, masking, mask⟩ := Proceeds.quiet top (fun i c quiet => by rw [resumed]; exact quiet)
    (fun w mask => by rw [mask.fetch]; rintro ⟨⟩) heads
  -- the store of the timer mask
  let m₃ : Machine := { m₂ with cpu := w, shadow := shadow }
  let m₄ := m₃.executed image (.sts timsk1 16)
  have masked : Proceeds image top m m₄ := returned.trans (masking.trans (.instruction (m := m₃) mask.fetch))
  have phase₄ : m₄.phase = .scheduling := by simp [m₄, m₃, Machine.executed, resumed, Phase.next]
  have rounds₄ : m₄.rounds = m.rounds := by simp [m₄, m₃, Machine.executed, resumed, rounds₂]
  have left₄ : m₄.taskLeft = m.taskLeft := (Machine.executed_taskLeft (m := m₃) (by decide)).trans left₂
  have pc : m₄.cpu.pc = image.startAdr + 72 := by
    show w.pc + 2 = _
    rw [mask.pc, BitVec.add_assoc]
    rfl
  obtain ⟨m', entered, scheduling, body, rounds, left⟩ := Proceeds.enters_body top phase₄ pc
  exact ⟨m', masked.trans entered, scheduling, body, rounds.trans rounds₄, left.trans left₄⟩

/-! ## From the scheduler to a task -/

/-- Memory in which `ctx` is saved at `sp`, and scheduled. -/
def scheduledMem (mem : Memory) (sp : Word) (ctx : Context) : Memory :=
  writeWord (pushBytes mem (sp + 36) ctx.frame) nextTaskSpAdr sp

theorem scheduledMem_kept {mem : Memory} {sp a : Word} {ctx : Context} (outside : 36 ≤ (sp + 36 - a).toNat)
    (next : a ∉ [nextTaskSpAdr, nextTaskSpAdr + 1]) : scheduledMem mem sp ctx a = mem a := by
  simp only [List.mem_cons, List.not_mem_nil, or_false, not_or] at next
  rw [scheduledMem, writeWord_outside next.1 next.2]
  exact pushBytes_outside mem outside

theorem scheduledMem_schedules {mem : Memory} {sp : Word} {ctx : Context} (task : TaskContext image top sp ctx)
    (nonzero : sp ≠ 0) : Schedules image top (scheduledMem mem sp ctx) sp ctx where
  next := readWord_writeWord _ _ _
  nonzero := nonzero
  saved := by
    intro k b entry
    have bound : k < ctx.frame.length := (List.getElem?_eq_some_iff.mp entry).1
    rw [Context.frame_length] at bound
    simp only [numContextSwitchOverheadBytes] at bound
    have inside : (sp + 36 - (sp + 36 - BitVec.ofNat 16 k)).toNat < 36 := by bv_omega
    rw [scheduledMem, writeWord_outside (task.framed.ne inside (by decide)) (task.framed.ne inside (by decide))]
    exact pushBytes_inside mem entry (by rw [Context.frame_length]; decide)
  task := task

/-- The body of the loop can schedule any context of a task. -/
theorem Located.schedules (topRoom : Room top 73) (h : Located image top first m) (phase : m.phase = .scheduling)
    (body : image.body m.cpu.pc = true) {sp : Word} {ctx : Context} (task : TaskContext image top sp ctx)
    (nonzero : sp ≠ 0) :
    ∃ m', Proceeds image top m m' ∧ m'.phase = .scheduling ∧ m'.cpu.pc = image.callAdr ∧ m'.rounds = m.rounds := by
  have loop := h.of_body phase body
  let cpu : Cpu := { m.cpu with sp := m.loopSp, pc := image.callAdr, mem := scheduledMem m.cpu.mem sp ctx }
  have kept : ∀ a, a ∈ [timsk1, prevTaskSpAdr, prevTaskSpAdr + 1, schedulerTaskSpAdr, schedulerTaskSpAdr + 1] ∨
      (top - a).toNat < (top - m.loopSp).toNat → cpu.mem a = m.cpu.mem a := by
    rintro a (cell | above)
    · have cells : [timsk1, prevTaskSpAdr, prevTaskSpAdr + 1, schedulerTaskSpAdr, schedulerTaskSpAdr + 1] ⊆
          switchCells := by decide
      apply scheduledMem_kept (task.framed a (cells cell))
      simp only [List.mem_cons, List.not_mem_nil, or_false] at cell
      rcases cell with rfl | rfl | rfl | rfl | rfl <;> decide
    · have inside : (top - a).toNat < 36 := by
        rcases loop.stack with ⟨-, lower, -⟩ | ⟨-, upper⟩
        · rw [lower] at above
          bv_omega
        · rw [upper] at above
          simp at above
      have topClear : Clear top 36 := fun a cell => Nat.le_trans (by decide) (topRoom.clear a cell)
      apply scheduledMem_kept
      · by_contra frame
        have := task.apart a (by omega)
        omega
      · exact topClear.notMem inside (by decide)
  have runs : BodyRuns image top m cpu :=
    ⟨phase, body, .inr ⟨rfl, rfl, sp, ctx, scheduledMem_schedules task nonzero⟩, kept⟩
  exact ⟨_, .one (.schedule m cpu runs) (by decide), phase, rfl, rfl⟩

/-- Once a task's context is restored, the scheduler's switch returns to it with the timer interrupt enabled. -/
theorem Proceeds.returns_to_task {sched : Context} (topRoom : Room top 73) (phase : m.phase = .task)
    (restored : Restored image top sched m.cpu) :
    ∃ m', Proceeds image top m m' ∧ m'.phase = .task ∧ (image.TaskCode m'.cpu.pc ∨ m'.cpu.pc = image.kYieldAdr) ∧
      takesInterrupt m'.cpu true m'.shadow = true ∧ m'.rounds = m.rounds := by
  have topClear : Clear top 36 := fun a cell => Nat.le_trans (by decide) (topRoom.clear a cell)
  obtain ⟨w, shadow, enabled, pc, ends⟩ := Proceeds.quiet top (fun i c holds => by rw [phase]; exact holds.1)
    (fun w ends => by rw [ends.1, image.kYield_sei]; rintro ⟨⟩) (heading_sei topClear restored)
  obtain ⟨sp, ctx, context, returns, -⟩ := ends.task
  let m₁ : Machine := { m with cpu := w, shadow := shadow }
  let m₂ := m₁.executed image .sei
  have sei : image.program m₁.cpu.pc = some .sei := by
    rw [← image.kYield_sei, ← pc]
  have ret : image.program m₂.cpu.pc = some .ret := by
    rw [← image.kYield_ret, ← pc]
    rfl
  have phase₂ : m₂.phase = .task := by simp [m₂, m₁, Machine.executed, phase, Phase.next]
  have rounds₂ : m₂.rounds = m.rounds := Machine.executed_rounds (m := m₁) (by simp [m₁, phase, Phase.next])
  have back : (m₂.executed image .ret).cpu.pc = ctx.pc := returns.returnAddress
  have noShadow : (m₂.executed image .ret).shadow = false := by simp [Machine.executed]
  refine ⟨m₂.executed image .ret, enabled.trans ((Proceeds.instruction sei).trans (.instruction ret)), ?_, ?_,
    takesInterrupt_iff.mpr ⟨rfl, ends.timer, rfl, noShadow⟩,
    (Machine.executed_rounds (by simp [phase₂, Phase.next])).trans rounds₂⟩
  · simp [Machine.executed, phase₂, Phase.next]
  · rw [back]
    rcases context.resumes with ⟨code, -⟩ | ⟨entry, -⟩
    · exact .inl code
    · exact .inr entry

/-- From the entry of `k_yield` the scheduler's switch gets to a task, with the timer interrupt enabled. -/
theorem Located.switches_to_task (topRoom : Room top 73) (h : Located image top first m) (phase : m.phase = .scheduling)
    (pc : m.cpu.pc = image.kYieldAdr) :
    ∃ m', Proceeds image top m m' ∧ m'.phase = .task ∧ (image.TaskCode m'.cpu.pc ∨ m'.cpu.pc = image.kYieldAdr) ∧
      takesInterrupt m'.cpu true m'.shadow = true ∧ m'.rounds = m.rounds := by
  obtain ⟨sched, heads⟩ := h.of_entered topRoom phase pc
  have entered : Proceeds image top m (m.executed image .cli) := .instruction (pc ▸ image.kYield_cli)
  have stays : (m.executed image .cli).phase = .scheduling := by simp [Machine.executed, phase, Phase.next]
  obtain ⟨u, shadow, saved, flags⟩ := Proceeds.quiet top (m := m.executed image .cli)
    (fun i c holds => by rw [stays]; exact holds.1) (fun u flags => by rw [flags.out]; rintro ⟨⟩) heads
  -- the flags and the last register
  let m₁ : Machine := { m.executed image .cli with cpu := u, shadow := shadow }
  let m₂ := m₁.executed image (.out .sreg 0)
  let m₃ := m₂.executed image (.pop 0)
  have restoring : m₂.phase = .restoring := by simp [m₂, m₁, Machine.executed, phase, Phase.next]
  have task : m₃.phase = .task := by
    show m₂.phase.next (.pop 0) = .task
    rw [restoring]
    rfl
  have rounds₃ : m₃.rounds = m.rounds := by simp [m₃, m₂, m₁, Machine.executed, phase, Phase.next]
  have restored : Proceeds image top m₁ m₃ := (Proceeds.instruction flags.out).trans (.instruction flags.pop)
  obtain ⟨m', returned, atTask, code, enabled, rounds⟩ :=
    Proceeds.returns_to_task (m := m₃) topRoom task flags.restored
  exact ⟨m', entered.trans (saved.trans (restored.trans returned)), atTask, code, enabled, rounds.trans rounds₃⟩

/-- **From the body of its loop** the scheduler gets to a task, with the timer interrupt enabled, if there is a place
for a task's context. -/
theorem Located.reaches_task (topRoom : Room top 73) (start : first.pc = image.startAdr + 13)
    (h : Located image top first m) (phase : m.phase = .scheduling) (body : image.body m.cpu.pc = true) {sp : Word}
    {ctx : Context} (task : TaskContext image top sp ctx) (nonzero : sp ≠ 0) :
    ∃ m', Proceeds image top m m' ∧ m'.phase = .task ∧ (image.TaskCode m'.cpu.pc ∨ m'.cpu.pc = image.kYieldAdr) ∧
      takesInterrupt m'.cpu true m'.shadow = true ∧ m'.rounds = m.rounds := by
  obtain ⟨m₁, scheduled, phase, pc, rounds₁⟩ := h.schedules topRoom phase body task nonzero
  have called : Proceeds image top m₁ (m₁.executed image (.call image.kYieldAdr)) := by
    apply Proceeds.instruction
    rw [pc]
    exact image.call.1
  have calls := scheduled.trans called
  have stays : (m₁.executed image (.call image.kYieldAdr)).phase = .scheduling := by
    simp [Machine.executed, phase, Phase.next]
  have same : (m₁.executed image (.call image.kYieldAdr)).rounds = m₁.rounds := by simp [Machine.executed, phase]
  obtain ⟨m', switched, atTask, code, enabled, rounds⟩ :=
    (h.run topRoom start calls.reaches).switches_to_task topRoom stays rfl
  exact ⟨m', calls.trans switched, atTask, code, enabled, rounds.trans (same.trans rounds₁)⟩

/-- **From its start** the scheduler gets to a task, with the timer interrupt enabled, if there is a place for a
task's context. -/
theorem started_reaches_task {s t : Cpu} {sp : Word} {ctx : Context} (pending : Bool) (room : Room s.sp 73)
    (starts : Starts image s first t) (task : TaskContext image s.sp sp ctx) (nonzero : sp ≠ 0) :
    ∃ m, Proceeds image s.sp (started t pending) m ∧ m.phase = .task ∧
      (image.TaskCode m.cpu.pc ∨ m.cpu.pc = image.kYieldAdr) ∧ takesInterrupt m.cpu true m.shadow = true ∧
      m.rounds = 0 := by
  have located := started_located pending starts room
  obtain ⟨u, shadow, reached, ends, -⟩ := Proceeds.quiet s.sp (m := started t pending)
    (fun i c holds => holds.1) (fun u ends => by rw [ends.1, image.loopCode.pop]; rintro ⟨⟩)
    (heading_prologue starts room)
  obtain ⟨m₁, entered, phase, body, rounds₁, -⟩ :=
    Proceeds.enters_body s.sp (m := { started t pending with cpu := u, shadow := shadow }) rfl ends
  have enters := reached.trans entered
  obtain ⟨m, switched, atTask, code, enabled, rounds⟩ :=
    (located.run room starts.returns enters.reaches).reaches_task room starts.returns phase body task nonzero
  exact ⟨m, enters.trans switched, atTask, code, enabled, rounds.trans rounds₁⟩

/-- **The scheduler is selected any number of times** in a run in which it is not interrupted. -/
theorem started_goes_round {s t : Cpu} {sp : Word} {ctx : Context} (pending : Bool) (room : Room s.sp 73)
    (starts : Starts image s first t) (task : TaskContext image s.sp sp ctx) (nonzero : sp ≠ 0) (n : Nat) :
    ∃ m, Proceeds image s.sp (started t pending) m ∧ m.phase = .resuming ∧ m.rounds = n + 1 := by
  have located := started_located pending starts room
  induction n with
  | zero =>
    obtain ⟨m, reached, phase, code, -, none⟩ := started_reaches_task pending room starts task nonzero
    obtain ⟨m', selected, resuming, counted⟩ :=
      (located.run room starts.returns reached.reaches).reaches_scheduler room phase code
    exact ⟨m', reached.trans selected, resuming, by rw [counted, none]⟩
  | succ n ih =>
    obtain ⟨m, reached, resuming, rounds⟩ := ih
    have selected := located.run room starts.returns reached.reaches
    obtain ⟨m₁, returned, phase, body, rounds₁, -⟩ := selected.reaches_body room starts.returns resuming
    have inBody := selected.run room starts.returns returned.reaches
    obtain ⟨m₂, switched, phase, code, -, rounds₂⟩ := inBody.reaches_task room starts.returns phase body task nonzero
    have atTask := inBody.run room starts.returns switched.reaches
    obtain ⟨m₃, again, resuming, counted⟩ := atTask.reaches_scheduler room phase code
    exact ⟨m₃, reached.trans (returned.trans (switched.trans again)), resuming, by rw [counted, rounds₂, rounds₁, rounds]⟩

end Simplos
