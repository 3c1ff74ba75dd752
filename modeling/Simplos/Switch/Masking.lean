import Simplos.Switch.SchedulerStack

/-!
# Interrupts while the scheduler runs

`CONTEXT_SWTICH` enables the timer interrupt before it returns, also when it returns to the scheduler, which
masks it some instructions later. In between a pending compare match interrupts the scheduler. Where none
is pending there, the scheduler is never interrupted, at no instruction boundary up to the switch to the
selected task.
-/

namespace Simplos
set_option autoImplicit false
open Avr

/-- No compare match is pending while a switch to the scheduler is under way and the timer not yet masked. -/
def NonePending (m : Machine) : Prop := m.phase = .resuming ∨ m.phase = .resumed → m.pending = false

/-- A step taken where no match is pending. -/
def StepUndisturbed (image : SchedulerImage) (top : Word) (m : Machine) (event : Event) (m' : Machine) : Prop :=
  Step image top m event m' ∧ NonePending m

variable {image : SchedulerImage} {top : Word} {first : Context} {m m' : Machine}

/-! ## Where the timer is masked -/

/-- **Only a task is interrupted** where no match is pending: the switch to the scheduler has none to take,
the scheduler runs with the timer masked and leaves with interrupts disabled. -/
theorem Located.interrupts_task (h : Located image top first m) (none : NonePending m)
    (enabled : m.interruptible = true) : m.phase = .task := by
  cases h with
  | task phase => exact phase
  | resuming phase => exact absurd enabled (not_takesInterrupt_of_none (none (.inl phase)))
  | resumed phase => exact absurd enabled (not_takesInterrupt_of_none (none (.inr phase)))
  | scheduling _ place =>
    cases place with
    | prologue heads =>
      obtain ⟨n, u, runs, -, loop⟩ := heads
      cases runs with
      | refl => exact absurd enabled (not_takesInterrupt_of_masked loop.masked)
      | next _ holds _ => exact absurd enabled (not_takesInterrupt_of_masked holds.2)
    | deciding _ loop => exact absurd enabled (not_takesInterrupt_of_masked loop.masked)
    | calls _ _ loop => exact absurd enabled (not_takesInterrupt_of_masked loop.masked)
    | entering _ _ _ loop => exact absurd enabled (not_takesInterrupt_of_masked loop.masked)
    | switching _ disabled => exact absurd enabled (not_takesInterrupt_of_disabled disabled)
  | restoring _ place => exact absurd enabled (not_takesInterrupt_of_masked place.masked)

theorem StepUndisturbed.alone {event : Event} (h : Located image top first m)
    (step : StepUndisturbed image top m event m') : event = .interrupt → m.phase = .task := by
  obtain ⟨step, none⟩ := step
  intro interrupted
  cases step with
  | interrupt enabled => exact h.interrupts_task none enabled
  | compareMatch => cases interrupted
  | instruction => cases interrupted
  | compute => cases interrupted
  | yield => cases interrupted
  | schedule => cases interrupted

/-- Every undisturbed run stays in the known places. -/
theorem Located.undisturbed {events : List Event} (topRoom : Room top 73) (start : first.pc = image.startAdr + 13)
    (h : Located image top first m) (trace : Lib.Trace (StepUndisturbed image top) m events m') :
    Located image top first m' :=
  trace.invariant (Located image top first)
    (fun _ _ _ located step => located.step topRoom start step.1 (step.alone located)) h

theorem StepCode.pending {event : Event} (h : StepCode image top m event m') : m'.pending = m.pending := by
  obtain ⟨step, noMatch, noInterrupt⟩ := h
  cases step with
  | compareMatch => exact absurd rfl noMatch
  | interrupt => exact absurd rfl noInterrupt
  | instruction => rfl
  | compute => rfl
  | yield => rfl
  | schedule => rfl

/-- A run of the code alone is undisturbed if no match is pending at its start. -/
theorem Proceeds.undisturbed (h : Proceeds image top m m') (calm : m.pending = false) :
    ∃ events, Lib.Trace (StepUndisturbed image top) m events m' := by
  obtain ⟨events, trace⟩ := h
  refine ⟨events, ?_⟩
  induction trace with
  | nil m => exact .nil m
  | cons step _ ih => exact .cons ⟨step.1, fun _ => calm⟩ (ih (step.pending.trans calm))

/-! ## Where it is not -/

/-- **A match pending on the way to the scheduler** interrupts it before it has masked the timer. -/
theorem Located.preemptible (start : first.pc = image.startAdr + 13)
    (h : Located image top first m) (phase : m.phase = .resuming) (pending : m.pending = true) :
    ∃ m', Reaches image top m m' ∧ m'.phase = .resumed ∧ m'.interruptible = true := by
  obtain ⟨-, -, e, -, heads⟩ := h.resuming_place phase
  have resumes : image.Resumes (schedulerContext image first (m.rounds - 1) m.schedulerLeft).pc :=
    schedulerContext_resumes start _ _
  obtain ⟨v, shadow, reached, returns⟩ := Proceeds.quiet top
    (fun i c quiet => by rw [phase]; exact quiet) (fun v returns => returns.known) heads
  let m₁ : Machine := { m with cpu := v, shadow := shadow }
  have timer : (v.mem timsk1).getLsbD ocie1a = true := returns.timer
  rcases returns.fetch with ⟨ret, on⟩ | reti
  · -- after `ret` the interrupt is taken at once
    refine ⟨m₁.executed image .ret, (reached.trans (.instruction ret)).reaches, ?_, ?_⟩
    · simp [m₁, Machine.executed, phase, Phase.next]
    · have noShadow : (m₁.executed image .ret).shadow = false := by simp [Machine.executed]
      exact takesInterrupt_iff.mpr ⟨on, timer, pending, noShadow⟩
  · -- after `reti` a jump is executed first
    let m₂ := m₁.executed image .reti
    obtain ⟨a, jump⟩ : ∃ a, image.program m₂.cpu.pc = some (.jmp a) := by
      have back : m₂.cpu.pc = (schedulerContext image first (m.rounds - 1) m.schedulerLeft).pc :=
        returns.returns.returnAddress
      rw [back]
      rcases resumes with pc | pc
      · rw [pc]
        exact ⟨_, image.returnPoint⟩
      · rw [pc]
        exact ⟨_, image.callReturn⟩
    have jumped : Reaches image top m₁ (m₂.executed image (.jmp a)) :=
      ((Proceeds.instruction reti).trans (.instruction jump)).reaches
    refine ⟨m₂.executed image (.jmp a), reached.reaches.trans jumped, ?_, ?_⟩
    · simp [m₂, m₁, Machine.executed, phase, Phase.next]
    · have noShadow : (m₂.executed image (.jmp a)).shadow = false := by simp [Machine.executed]
      exact takesInterrupt_iff.mpr ⟨rfl, timer, pending, noShadow⟩

/-! ## When the scheduler is not preempted -/

/-- **The scheduler is never preempted in a run that keeps `NonePending`**, and `prev_task_sp` holds, as
long as the body of its loop runs, what the switch of the task before has saved. Where a match is pending
while a switch returns to the scheduler, the scheduler can be preempted. -/
theorem scheduler_never_preempted (image : SchedulerImage) (s : Cpu) (start : s.pc = image.startAdr)
    (room : Room s.sp 73) (masked : Masked s.mem) :
    ∃ t, steps image.program 61 s = some t ∧
      ∀ pending events m, Lib.Trace (StepUndisturbed image s.sp) (started t pending) events m →
        (∀ m', StepUndisturbed image s.sp m .interrupt m' → m.phase = .task) ∧
        (∀ e, m.phase = .scheduling → image.body m.cpu.pc = true → m.taskLeft = some e →
          readWord m.cpu.mem prevTaskSpAdr = (execAll pushContext e).sp) ∧
        (m.phase = .resuming → m.pending = true →
          ∃ m', Reaches image s.sp m m' ∧ m'.phase = .resumed ∧ m'.interruptible = true) := by
  obtain ⟨first, t, run, starts⟩ := starts image start room masked
  refine ⟨t, run, ?_⟩
  intro pending events m trace
  have located := (started_located pending starts room).undisturbed room starts.returns trace
  refine ⟨?_, ?_, located.preemptible starts.returns⟩
  · intro m' step
    exact step.alone located rfl
  · intro e phase body left
    rw [(located.of_body phase body).prev e left, execAll_pushContext]

/-- **An undisturbed run**: the concrete scheduler switches to its task, a compare match interrupts the task, its
switch returns to the scheduler, and in the body of the loop `prev_task_sp` is what that switch saved. -/
theorem scheduler_never_preempted_from_0x1000 :
    ∃ t before m after m', steps sampleScheduler.program 61 startingScheduler = some t ∧
      Lib.Trace (StepUndisturbed sampleScheduler 0x1000) (started t false) (before ++ [.compareMatch]) m ∧
      StepUndisturbed sampleScheduler 0x1000 m .interrupt m.interrupted ∧ m.phase = .task ∧
      Lib.Trace (StepUndisturbed sampleScheduler 0x1000) m.interrupted after m' ∧ m'.phase = .scheduling ∧
      sampleScheduler.body m'.cpu.pc = true ∧
      readWord m'.cpu.mem prevTaskSpAdr = (execAll pushContext (m.cpu.interrupt timer1CompaVector)).sp := by
  obtain ⟨t, run, always⟩ := scheduler_never_preempted sampleScheduler startingScheduler rfl startingScheduler_room rfl
  obtain ⟨first, t', run', starts⟩ := starts sampleScheduler (s := startingScheduler) rfl startingScheduler_room rfl
  cases run.symm.trans run'
  have located := started_located false starts startingScheduler_room
  -- to the task
  obtain ⟨m₁, switched, task, -, enabled, -⟩ :=
    started_reaches_task false startingScheduler_room starts sampleContext_task (by decide)
  obtain ⟨before, trace⟩ := switched.undisturbed rfl
  let m : Machine := { m₁ with pending := true }
  have matched : StepUndisturbed sampleScheduler 0x1000 m₁ .compareMatch m := by
    refine ⟨.compareMatch m₁, fun resuming => ?_⟩
    rw [task] at resuming
    rcases resuming with same | same <;> cases same
  have interrupts : StepUndisturbed sampleScheduler 0x1000 m .interrupt m.interrupted := by
    refine ⟨.interrupt m enabled, fun resuming => ?_⟩
    rcases resuming with same | same <;> cases task.symm.trans same
  have reached := trace.append (.cons matched (.nil m))
  -- and back
  have atTask := located.undisturbed startingScheduler_room starts.returns reached
  obtain ⟨m₂, selected, resuming, left⟩ := atTask.interrupted_reaches_scheduler startingScheduler_room task enabled
  have selects := (atTask.interrupt startingScheduler_room task enabled).run startingScheduler_room starts.returns
    selected.reaches
  obtain ⟨m', returned, phase, body, -, same⟩ := selects.reaches_body startingScheduler_room starts.returns resuming
  obtain ⟨after, back⟩ := (selected.trans returned).undisturbed rfl
  have round := reached.append (.cons interrupts back)
  exact ⟨t, before, m, after, m', run, reached, interrupts, (always _ _ _ reached).1 _ interrupts, back, phase, body,
    (always _ _ _ round).2.1 _ phase body (same.trans left)⟩

/-- **The scheduler is preempted** if a match gets pending when its switch has selected it. -/
theorem scheduler_preempted_while_resuming :
    ∃ t m m', steps sampleScheduler.program 61 startingScheduler = some t ∧
      Reaches sampleScheduler 0x1000 (started t false) m ∧ Step sampleScheduler 0x1000 m .interrupt m' ∧
      m.phase = .resumed := by
  obtain ⟨first, t, run, starts⟩ := starts sampleScheduler (s := startingScheduler) rfl startingScheduler_room rfl
  obtain ⟨m₁, reached, resuming, -⟩ :=
    started_goes_round false startingScheduler_room starts sampleContext_task (by decide) 0
  have matched := reached.reaches.trans (.one (.compareMatch m₁) (by rintro ⟨⟩))
  have located := (started_located false starts startingScheduler_room).run startingScheduler_room starts.returns matched
  obtain ⟨m₂, reached', resumed, enabled⟩ := located.preemptible starts.returns resuming rfl
  exact ⟨t, m₂, m₂.interrupted, run, matched.trans reached', .interrupt m₂ enabled, resumed⟩

end Simplos
