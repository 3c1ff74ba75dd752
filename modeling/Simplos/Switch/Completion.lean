import Simplos.Kernel.Schedules
import Simplos.Switch.Checks
import Simplos.Switch.ThreadSteps

/-!
# Where a switch can get stuck

A switch away from a task always gets to the scheduler, and a switch the scheduler begins always gets to the task it
has selected. What is between them can fail: the round needs a task whose turn it is, and it checks the stack pointers
and the return address. In terms of the tasks and their own CPUs the checks need room on two stacks and a context that
is not mistaken for none.
-/

namespace Simplos
set_option autoImplicit false
open Avr
open Lib (bind_eq_ok)

/-! ## The checks on the machine -/

/-- `sp` is a stack pointer that is accepted for `slot`, the canaries apart. -/
structure Roomy (slot : Fin tasksMax) (sp : Word) : Prop where
  room : blockLow slot + numContextSwitchOverheadBytes ≤ sp
  high : sp ≤ blockHigh slot
  above : osStackStart < sp

/-- The flags, `r0` and the highest byte of the return address are zero: the check of the return address, which reads
these three, takes the context for none. -/
def Context.Mistaken (ctx : Context) : Prop := ctx.pc.toNat < 2 ^ 16 ∧ ctx.regs 0 = 0 ∧ ctx.sreg.toByte = 0

theorem spAccepted_iff_roomy {mem : Memory} (canaries : CanariesIntact mem) {slot : Fin tasksMax} {sp : Word} :
    SpAccepted mem slot sp ↔ Roomy slot sp :=
  ⟨fun accepted => ⟨accepted.room, accepted.high, accepted.above⟩,
    fun roomy => ⟨roomy.room, roomy.high, roomy.above, canaries⟩⟩

theorem pcBytes_eq (pc : Pc) : pcBytes pc = addressBytes (pc.setWidth 24) := by
  have low : (pc.setWidth 24).extractLsb' 0 8 = pc.extractLsb' 0 8 := by
    apply BitVec.eq_of_toNat_eq
    simp
  have mid : (pc.setWidth 24).extractLsb' 8 8 = pc.extractLsb' 8 8 := by
    apply BitVec.eq_of_toNat_eq
    simp [Nat.shiftRight_eq_div_pow]
    omega
  rw [pcBytes, addressBytes, low, mid]

/-- **What the check says of a context that a switch saved.** -/
theorem SavedContext.returnAddress_iff {mem : Memory} {sp : Word} {ctx : Context} (saved : SavedContext mem sp ctx) :
    PlausibleReturnAddress mem sp ↔ ¬ ctx.Mistaken := by
  have bytes : SavedAt mem sp (ctx.pc.setWidth 24) ctx.regs ctx.sreg := by
    intro k b entry
    rw [← pcBytes_eq] at entry
    exact saved k b entry
  have bound := ctx.pc.isLt
  have value : (ctx.pc.setWidth 24).toNat = ctx.pc.toNat := by
    rw [BitVec.toNat_setWidth]
    omega
  rw [← plausibleReturnAddress_iff, returnAddressCheck_ok bytes, value]
  exact and_iff_right bound

theorem Leaving.canaries {image : Image} {w : World} {b : Threads} {v : TaskCpu} {e : Cpu} {own : Context} {top : Word}
    (leaving : Leaving image w b v e own top) (canaries : CanariesIntact w.cpu.mem) : CanariesIntact e.mem := by
  intro a low high
  rw [leaving.kept a ((canary_outside low high).2 b.running), canaries a low high]

/-! ## The round -/

/-- What a round needs to go from the task of `b` that is left with the stack pointer `sp` and the context `own` to the
task the pool `p` has next. -/
structure RoundGoesOn (b : Threads) (p : TaskPool) (own : Context) (sp : Word) : Prop where
  left : Roomy b.running sp
  context : ¬ own.Mistaken
  resumed : ∃ q, Lib.Pool.Turn 255 p q ∧ (q.running ≠ b.running → Roomy q.running ((b.cpus q.running).sp - 36))

namespace Implements

variable {image : SpawnImage} {scheduler : Fin tasksMax} {w : World} {b : Threads} {p : TaskPool}

theorem running_eq (h : Implements scheduler w b) (serves : Serves w.os p) : p.running = b.running :=
  slotIndex_inj.mp (serves.represents.running.symm.trans h.user.active)

/-- The stack pointer in the slot of the task whose turn it is. -/
theorem turn_sp {q : TaskPool} (h : Implements scheduler w b) (serves : Serves w.os p) (sound : p.Sound)
    (turn : Lib.Pool.Turn 255 p q) (other : q.running ≠ p.running) :
    (w.os.kernel.tasks q.running).taskSpAdr = (b.cpus q.running).sp - 36 := by
  have after : q.Sound := (Lib.Pool.Step.yield turn).sound sound
  have ready := serves.ready after (Lib.Pool.IsTask.congr turn.places) other
  obtain ⟨ctx, -, realises⟩ := h.ready _ ready
  rw [realises.pointer, BitVec.add_sub_cancel]

/-- **A round succeeds exactly if there is a turn and the checks pass**, seen from the tasks. -/
theorem round_iff {own : Context} {sp : Word} {t : Cpu} (h : Implements scheduler w b) (serves : Serves w.os p)
    (sound : p.Sound) (ranged : Ranged w.os.kernel) (canaries : CanariesIntact t.mem)
    (saved : SavedContext t.mem sp own) :
    (∃ done, schedulerRound .atmega2560 t.mem (w.os.contextSwtich sp) = .ok done) ↔ RoundGoesOn b p own sp := by
  have switched : (∃ done, schedulerRound .atmega2560 t.mem (w.os.contextSwtich sp) = .ok done) ↔
      ∃ os', w.os.step .atmega2560 (.yield ⟨sp, t.mem, 0⟩) = .ok os' := by
    rw [Os.step, Os.switchAway, if_pos h.user.noneScheduled]
    constructor
    · rintro ⟨done, round⟩
      exact ⟨_, bind_eq_ok.mpr ⟨done, round, rfl⟩⟩
    · rintro ⟨os', switched⟩
      obtain ⟨done, round, -⟩ := bind_eq_ok.mp switched
      exact ⟨done, round⟩
  have running := h.running_eq serves
  rw [switched, serves.yield_iff ranged]
  constructor
  · rintro ⟨q, step, accepted, address, others⟩
    cases step with
    | yield turn =>
      refine ⟨?_, saved.returnAddress_iff.mp address, q, turn, fun other => ?_⟩
      · rw [← running]
        exact (spAccepted_iff_roomy canaries).mp accepted
      · rw [← running] at other
        rw [← h.turn_sp serves sound turn other]
        exact (spAccepted_iff_roomy canaries).mp (others other)
  · rintro ⟨left, context, q, turn, resumed⟩
    refine ⟨q, .yield turn, ?_, saved.returnAddress_iff.mpr context, fun other => ?_⟩
    · show SpAccepted t.mem p.running sp
      rw [running]
      exact (spAccepted_iff_roomy canaries).mpr left
    · show SpAccepted t.mem q.running (w.os.kernel.tasks q.running).taskSpAdr
      rw [h.turn_sp serves sound turn other]
      rw [running] at other
      exact (spAccepted_iff_roomy canaries).mpr (resumed other)

/-- **From the scheduler's `k_yield` to the selected task.** -/
theorem returns {v : TaskCpu} {e t y : Cpu} {own : Context} {top : Word} {done : Os} {back : Pc}
    (h : Implements scheduler w b) (leaving : Leaving image.toImage w b v e own top)
    (toScheduler : RunsToReturn image.program e t)
    (at_scheduler : AtScheduler scheduler w.os (b.left w.os.kernel (top - 36)) (b.set v).cpus t)
    (round : schedulerRound .atmega2560 t.mem (w.os.contextSwtich (top - 36)) = .ok done)
    (loops : Loops image.toImage scheduler t y done back) :
    ∃ u next, RunsToReturn image.program y u ∧
      Implements scheduler ⟨u, done.contextSwtich (y.sp - 33)⟩ { b.set v with running := next } := by
  have inv : RoundInv (w.os.contextSwtich (top - 36)).kernel (some scheduler) b.running := h.user.yielding
  have schedulerSp : done.schedulerTaskSp = (w.os.contextSwtich (top - 36)).schedulerTaskSp :=
    schedulerRound_schedulerSp inv round
  have step : w.os.step .atmega2560 (.yield ⟨top - 36, t.mem, y.sp - 33⟩) = .ok (done.contextSwtich (y.sp - 33)) := by
    rw [Os.step, Os.switchAway, if_pos h.user.noneScheduled]
    exact bind_eq_ok.mpr ⟨done, round, rfl⟩
  obtain ⟨next, resumed⟩ := (SavedInv.yield h.user w.os.kernel.saved_inv step).1
  rw [Saved.after, indexOfCurrentTask, h.user.active] at resumed
  obtain ⟨u, toTask, -⟩ := at_scheduler.toTask loops schedulerSp resumed
  obtain ⟨next, -, -, implements⟩ := h.leave leaving (.round toScheduler round loops toTask)
  exact ⟨u, next, toTask, implements⟩

end Implements

/-! ## A machine after a boot -/

/-- Memory with the stack-pointer variables as in `os`. -/
def storeWords (mem : Memory) (os : Os) : Memory :=
  writeWord (writeWord (writeWord (writeWord mem taskSpAdr os.taskSp) prevTaskSpAdr os.prevTaskSp) nextTaskSpAdr
    os.nextTaskSp) schedulerTaskSpAdr os.schedulerTaskSp

theorem storeWords_words (mem : Memory) (os : Os) : Words (storeWords mem os) os := by
  have keeps : ∀ (mem : Memory) (a w : Word) {b : Word}, b ≠ a → b ≠ a + 1 → b + 1 ≠ a → b + 1 ≠ a + 1 →
      readWord (writeWord mem a w) b = readWord mem b := fun mem a w b low high low' high' =>
    readWord_congr (writeWord_outside low high) (writeWord_outside low' high')
  constructor
  · rw [storeWords, keeps _ _ _ (by decide) (by decide) (by decide) (by decide),
      keeps _ _ _ (by decide) (by decide) (by decide) (by decide),
      keeps _ _ _ (by decide) (by decide) (by decide) (by decide), readWord_writeWord]
  · rw [storeWords, keeps _ _ _ (by decide) (by decide) (by decide) (by decide),
      keeps _ _ _ (by decide) (by decide) (by decide) (by decide), readWord_writeWord]
  · rw [storeWords, keeps _ _ _ (by decide) (by decide) (by decide) (by decide), readWord_writeWord]
  · rw [storeWords, readWord_writeWord]

theorem storeWords_outside (mem : Memory) (os : Os) {a : Word} (outside : a ∉ kernelWords) :
    storeWords mem os a = mem a := by
  simp only [kernelWords, List.mem_cons, List.not_mem_nil, or_false, not_or] at outside
  obtain ⟨task, task', prev, prev', next, next', scheduler, scheduler'⟩ := outside
  rw [storeWords, writeWord_outside scheduler scheduler', writeWord_outside next next', writeWord_outside prev prev',
    writeWord_outside task task']

theorem InBlock.notWord {slot : Fin tasksMax} {a : Word} (h : InBlock slot a) : a ∉ kernelWords := by
  have among : kernelWords ⊆ switchCells := by decide
  exact fun member => h.notCell (among member)

/-- The scheduler can end its pass right where it was resumed. -/
theorem loops_possible (image : Image) {scheduler : Fin tasksMax} {t : Cpu} (room : OnStack scheduler t.sp) (done : Os)
    (back : Pc) : ∃ y, Loops image scheduler t y done back := by
  let pushed := pushBytes t.mem t.sp (pcBytes back)
  have top : t.sp - 3 + 3 = t.sp := BitVec.sub_add_cancel t.sp 3
  refine ⟨⟨t.regs, t.sreg, t.sp - 3, image.kYieldAdr, storeWords pushed done⟩, rfl, ?_, top, ?_,
    storeWords_words pushed done⟩
  · apply (ReturnsTo.pushed t.mem t.sp back).congr
    intro a inside
    rw [top] at inside
    exact storeWords_outside pushed done (room.inside (by omega)).notWord
  · intro j a other block
    show storeWords pushed done a = t.mem a
    rw [storeWords_outside pushed done block.notWord]
    apply pushBytes_outside
    have := room.elsewhere block other
    show 3 ≤ (t.sp - a).toNat
    omega

/-- `spawn_task`'s code at 0x300, apart from the handlers. -/
def spawningImage : SpawnImage where
  program := load timer1CompaVector [.jmp 0x100] (load 0x100 timer1CompaVect (load 0x200 kYield
    (load 0x300 (setReturnPoint 0x380 ++ saveContext) fun _ => none)))
  timer1CompaVectAdr := 0x100
  kYieldAdr := 0x200
  vector := (placed_handlers _).1
  handler := (placed_handlers _).2.1
  yields := (placed_handlers _).2.2
  spawnAdr := 0x300
  returnPoint := 0x380
  spawn := placed_under_handlers (placed_load (by decide +kernel)) (by decide +kernel)
  fits := by decide

/-- The idle task as `spawn_task` left it: `bootMemory` holds ones above the canaries. -/
def idleCpu : TaskCpu := ⟨fun _ => 1, true, false, false, 0x5C4, 0x10101, bootMemory⟩

theorem bootMemory_saved {mem : Memory} {sp : Word} (ones : ∀ a, (sp + 36 - a).toNat < 36 → mem a = 1) :
    SavedContext mem sp ⟨fun _ => 1, .ofByte 1, 0x10101⟩ := by
  have bytes : (Context.mk (fun _ => 1) (.ofByte 1) 0x10101).frame = List.replicate 36 1 := by decide
  intro k b entry
  rw [bytes, List.getElem?_replicate] at entry
  split at entry
  · cases entry
    apply ones
    bv_omega
  · cases entry

theorem idle_suspended {mem : Memory} (ones : ∀ a, InBlock 0 a → mem a = 1) : Suspended 0 idleCpu 0x5A0 mem := by
  have room : OnStack 0 (0x5A0 + 36) := ⟨by decide, by decide⟩
  refine ⟨_, bootMemory_saved fun a inside => ones a (room.inside (Nat.lt_succ_of_lt inside)), ?_⟩
  refine ⟨rfl, rfl, rfl, rfl, by decide, rfl, ?_, room⟩
  intro a block _
  rw [ones a block]
  rw [inBlock_iff] at block
  have above : ¬ a ≤ canaryStart := by
    unfold canaryStart
    bv_omega
  exact (if_neg above).symm

/-- The machine when the scheduler of a boot is about to switch to the idle task. -/
theorem idle_pass : ∃ os y, boot .atmega2560 0x1FF0 0x5A0 bootSwitch = .ok os ∧
    FirstPass spawningImage.toImage 1 os y 0x10101 ∧ Suspended 0 idleCpu 0x5A0 y.mem ∧ CanariesIntact y.mem := by
  obtain ⟨os, booted⟩ := boot_succeeds
  obtain ⟨main, spawned, entered, done, pid, bootedMain, spawn, enter, round, same⟩ := boot_ok booted
  obtain ⟨slot, inv⟩ := booting_inv bootedMain spawn enter
  have schedulerSp : os.schedulerTaskSp = 0x800 := by
    rw [same]
    refine (schedulerRound_schedulerSp inv round).trans ?_
    obtain ⟨slot, -, rfl⟩ := enterScheduler_ok enter
    rfl
  let y : Cpu := ⟨fun _ => 1, .ofByte 1, 0x7FD, 0x200, storeWords bootMemory done⟩
  have ones : ∀ i a, InBlock i a → y.mem a = 1 := by
    intro i a block
    refine (storeWords_outside bootMemory done block.notWord).trans (if_neg ?_)
    rw [inBlock_iff] at block
    unfold canaryStart
    bv_omega
  have room : OnStack 1 (0x800 + 36) := ⟨by decide, by decide⟩
  have room' : OnStack 1 ((0x7FD : Word) + 3) := ⟨by decide, by decide⟩
  have bottom : (0x7FD : Word) - 33 = bootSwitch.schedulerSp := by decide
  have pass : FirstPass spawningImage.toImage 1 os y 0x10101 := by
    refine ⟨⟨rfl, ?_, room'⟩, ⟨done, storeWords_words bootMemory done, ?_⟩, ?_, ?_⟩
    · have bytes : pcBytes 0x10101 = List.replicate 3 1 := by decide
      intro k b entry
      rw [bytes, List.getElem?_replicate] at entry
      split at entry
      · cases entry
        apply ones 1 ((0x7FD : Word) + 3 - BitVec.ofNat 16 k)
        apply room'.inside
        bv_omega
      · cases entry
    · exact (congrArg done.contextSwtich bottom).trans same.symm
    · rw [SchedulerWaits, schedulerSp]
      exact ⟨⟨_, bootMemory_saved fun a inside => ones 1 a (room.inside (Nat.lt_succ_of_lt inside))⟩, room⟩
    · rw [schedulerSp]
      exact Nat.le_refl 0x800
  refine ⟨os, y, booted, pass, idle_suspended (ones 0), fun a low high => ?_⟩
  refine (storeWords_outside bootMemory done ?_).trans (bootMemory_canaries a low high)
  have among : kernelWords ⊆ switchCells := by decide
  exact fun member => (canary_outside low high).1 (among member)

/-- **A switch gets stuck in the checks of its round or not at all.** However the running task is left, the instructions
get to the scheduler; its round succeeds exactly if some task's turn can be determined, both stacks have room and the
saved context is not mistaken; and from wherever the scheduler then calls `k_yield`, the instructions get to the
selected task, with every task's own CPU in place. -/
theorem switch_gets_stuck_only_in_checks (image : SpawnImage) {scheduler : Fin tasksMax} {w : World} {b : Threads}
    {v : TaskCpu} {e : Cpu} {own : Context} {top : Word} (implements : Implements scheduler w b)
    (reachable : Reachable w.os) (canaries : CanariesIntact w.cpu.mem)
    (leaving : Leaving image.toImage w b v e own top) :
    ∃ p t, Represents w.os.kernel p ∧ RunsToReturn image.program e t ∧
      ((∃ done, schedulerRound .atmega2560 t.mem (w.os.contextSwtich (top - 36)) = .ok done) ↔
        RoundGoesOn b p own (top - 36)) ∧
      ∀ done y back, schedulerRound .atmega2560 t.mem (w.os.contextSwtich (top - 36)) = .ok done →
        Loops image.toImage scheduler t y done back → ∃ u next, RunsToReturn image.program y u ∧
          Implements scheduler ⟨u, done.contextSwtich (y.sp - 33)⟩ { b.set v with running := next } := by
  obtain ⟨p, serves, sound, ranged⟩ := reachable.serves
  obtain ⟨t, ctx, toScheduler, handsOver, at_scheduler⟩ := implements.toScheduler leaving
  have room := implements.scheduler.2
  have intact : CanariesIntact t.mem :=
    handsOver.canaries leaving.realises.room room (leaving.canaries canaries)
  refine ⟨p, t, serves.represents, toScheduler, implements.round_iff serves sound ranged intact handsOver.saved, ?_⟩
  intro done y back round loops
  exact implements.returns leaving toScheduler at_scheduler round loops

theorem switch_gets_stuck_only_in_checks_after_boot : ∃ os u, boot .atmega2560 0x1FF0 0x5A0 bootSwitch = .ok os ∧
    ∃ p t, Represents os.kernel p ∧ RunsToReturn spawningImage.program (u.interrupt timer1CompaVector) t ∧
      ((∃ done, schedulerRound .atmega2560 t.mem (os.contextSwtich (u.sp - 36)) = .ok done) ↔
        RoundGoesOn ⟨fun _ => idleCpu, 0⟩ p (preemptedContext u) (u.sp - 36)) := by
  obtain ⟨os, y, booted, pass, idle, intact⟩ := idle_pass
  obtain ⟨u, -, implements, canaries⟩ := boot_implements booted pass idle
  have leaving := implements.interrupted spawningImage.toImage
  obtain ⟨p, t, represents, runs, exact, -⟩ :=
    switch_gets_stuck_only_in_checks spawningImage implements (boot_reachable booted) (canaries intact) leaving
  exact ⟨os, u, booted, p, t, represents, runs, exact⟩

end Simplos
