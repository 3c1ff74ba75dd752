import Simplos.Kernel.Refinement
import Simplos.Switch.Threads

/-!
# Steps of the machine are steps of its tasks

Each step of the machine is a step of the tasks with CPUs of their own and a step of the kernel, one lemma per kind of
step. The scheduler's first switch begins it all: behind it the machine implements the idle task.
-/

namespace Simplos
set_option autoImplicit false
open Avr
open Lib (bind_eq_ok)

/-! ## The steps of the machine -/

/-- The CPU of a task that runs. -/
def TaskCpu.ofCpu (s : Cpu) : TaskCpu := ⟨s.regs, s.sreg.c, s.sreg.h, s.sreg.t, s.sp, s.pc, s.mem⟩

theorem Realises.ofCpu {slot : Fin tasksMax} {s : Cpu} (room : OnStack slot s.sp) :
    Realises slot (.ofCpu s) (.ofCpu s) s.sp s.mem := ⟨rfl, rfl, rfl, rfl, rfl, rfl, fun _ _ _ => rfl, room⟩

theorem Words.congr {mem mem' : Memory} {os : Os} (words : Words mem os) (same : ∀ a ∈ kernelWords, mem' a = mem a) :
    Words mem' os where
  task := (readWord_congr (same _ (by decide)) (same _ (by decide))).trans words.task
  prev := (readWord_congr (same _ (by decide)) (same _ (by decide))).trans words.prev
  next := (readWord_congr (same _ (by decide)) (same _ (by decide))).trans words.next
  scheduler := (readWord_congr (same _ (by decide)) (same _ (by decide))).trans words.scheduler

theorem SchedulerWaits.congr {scheduler : Fin tasksMax} {os : Os} {mem mem' : Memory}
    (waits : SchedulerWaits scheduler os mem) (same : ∀ a, InBlock scheduler a → mem' a = mem a) :
    SchedulerWaits scheduler os mem' := by
  obtain ⟨⟨ctx, saved⟩, room⟩ := waits
  exact ⟨⟨ctx, saved.block_congr room same⟩, room⟩

namespace Implements

variable {image : SpawnImage} {scheduler : Fin tasksMax} {w : World} {b : Threads}

theorem compute {slot : Fin tasksMax} {t : Cpu} (h : Implements scheduler w b)
    (active : w.os.kernel.schedule.activeTaskBlock = slotIndex slot) (runs : Computes slot w.cpu t) :
    Implements scheduler { w with cpu := t } (b.set (.ofCpu t)) := by
  obtain rfl : slot = b.running := slotIndex_inj.mp (active.symm.trans h.user.active)
  refine ⟨h.user, h.words.congr runs.words, ?_, ?_, h.scheduler.congr fun a block => ?_⟩
  · show Realises b.running ((b.set (.ofCpu t)).cpus b.running) _ _ _
    rw [b.set_self]
    exact .ofCpu runs.room
  · intro i ready
    have other : i ≠ b.running := by
      rintro rfl
      cases ready.symm.trans h.runningStatus
    rw [Threads.set_of_ne other]
    exact (h.ready i ready).congr fun a block => runs.blocks i a other block
  · exact runs.blocks scheduler a h.apart.symm block

theorem setPriority {priority : Byte} {os' : Os} (h : Implements scheduler w b)
    (sets : w.os.step .atmega2560 (.setPriority priority) = .ok os') : Implements scheduler { w with os := os' } b := by
  obtain ⟨k, set, last⟩ := bind_eq_ok.mp sets
  obtain rfl := pure_eq_ok.mp last
  have user := h.user.setPriority set
  obtain ⟨slot, -, rfl⟩ := setPriority_ok set
  have status := status_modifyTask_same w.os.kernel slot (f := fun t => { t with priority := priority }) rfl
  refine ⟨user, ⟨h.words.task, h.words.prev, h.words.next, h.words.scheduler⟩, h.running, ?_, h.scheduler⟩
  intro i ready
  have held : ((w.os.kernel.modifyTask slot fun t => { t with priority := priority }).tasks i).taskSpAdr =
      (w.os.kernel.tasks i).taskSpAdr := by
    rw [modifyTask_apply]
    split
    · rename_i here
      rw [here]
    · rfl
  rw [held]
  exact h.ready i (status ▸ ready)

end Implements

/-- A switch begins in `e` with which the running task of `b` loses the machine; `v` is its CPU once it is resumed. So
far nothing outside its block has changed. -/
structure Leaving (image : Image) (w : World) (b : Threads) (v : TaskCpu) (e : Cpu) (own : Context) (top : Word) : Prop where
  departs : Departs image e own top
  kept : ∀ a, ¬ InBlock b.running a → e.mem a = w.cpu.mem a
  realises : Realises b.running v own top e.mem

section

variable {image : Image} {scheduler : Fin tasksMax} {w : World} {b : Threads} {v : TaskCpu} {e : Cpu} {own : Context}
  {top : Word}

theorem Leaving.other (h : Leaving image w b v e own top) {i : Fin tasksMax} {a : Word} (other : i ≠ b.running)
    (block : InBlock i a) : e.mem a = w.cpu.mem a := h.kept a fun own => other (block.unique own)

theorem Leaving.words (h : Leaving image w b v e own top) : ∀ a ∈ kernelWords, e.mem a = w.cpu.mem a := by
  intro a member
  have among : kernelWords ⊆ switchCells := by decide
  exact h.kept a fun block => block.notCell (among member)

/-- The task is interrupted: it does not notice. -/
theorem Implements.interrupted (h : Implements scheduler w b) (image : Image) :
    Leaving image w b (b.cpus b.running) (w.cpu.interrupt timer1CompaVector) (preemptedContext w.cpu) w.cpu.sp := by
  have room := h.running.room
  have pushed : ∀ a, 3 ≤ (w.cpu.sp - a).toNat → (w.cpu.interrupt timer1CompaVector).mem a = w.cpu.mem a :=
    fun a away => pushBytes_outside w.cpu.mem away
  refine ⟨.interrupt w.cpu, ?_, ?_⟩
  · intro a outside
    apply pushed
    by_contra below
    exact outside (room.inside (by omega))
  · refine ⟨h.running.regs, h.running.carry, h.running.halfCarry, h.running.transfer, h.running.pointer, h.running.pc,
      ?_, room⟩
    intro a block used
    have := room.above used block
    rw [pushed a (by omega)]
    exact h.running.stack a block used

/-- The task has called `k_yield`: it will go on behind the call. -/
theorem Implements.yielded {back : Pc} (h : Implements scheduler w b) (calls : CallsYield image b.running w.cpu back) :
    Leaving image w b (b.cpus b.running).ret w.cpu ⟨w.cpu.regs, { w.cpu.sreg with i := false }, back⟩ (w.cpu.sp + 3) := by
  have runs := h.running
  have room := calls.room
  have low := room.low
  have below := runs.room.low
  have stacked : ∀ k, k < 3 →
      (b.cpus b.running).stack (w.cpu.sp + BitVec.ofNat 16 (k + 1)) = w.cpu.mem (w.cpu.sp + BitVec.ofNat 16 (k + 1)) := by
    intro k bound
    have block : InBlock b.running (w.cpu.sp + BitVec.ofNat 16 (k + 1)) := by
      apply room.inside
      bv_omega
    apply (runs.stack _ block _).symm
    bv_omega
  have address : returnAddress (b.cpus b.running).stack (b.cpus b.running).sp = back := by
    rw [runs.pointer, ← calls.returns.returnAddress, returnAddress, returnAddress]
    have first := stacked 0 (by decide)
    have second := stacked 1 (by decide)
    have third := stacked 2 (by decide)
    exact congrArg _ (congrArg₂ _ (congrArg₂ _ first second) third)
  refine ⟨.call back calls.pc calls.returns, fun _ _ => rfl, ?_⟩
  refine ⟨runs.regs, runs.carry, runs.halfCarry, runs.transfer, ?_, address, ?_, room⟩
  · show (b.cpus b.running).sp + 3 = w.cpu.sp + 3
    rw [runs.pointer]
  · intro a block used
    apply runs.stack a block
    bv_omega

end

/-- The record of the saved stack pointers when the running task is being left. -/
def Threads.left (b : Threads) (k : Kernel) (sp : Word) : Saved := Function.update k.saved (slotIndex b.running) (some sp)

namespace Implements

variable {image : SpawnImage} {scheduler : Fin tasksMax} {w : World} {b : Threads}

/-- **The switch to the scheduler** away from a task that stays. -/
theorem toScheduler {v : TaskCpu} {e : Cpu} {own : Context} {top : Word} (h : Implements scheduler w b)
    (leaving : Leaving image.toImage w b v e own top) :
    ∃ t ctx, RunsToReturn image.program e t ∧ HandsOver e.mem top own w.os.schedulerTaskSp ctx t ∧
      AtScheduler scheduler w.os (b.left w.os.kernel (top - 36)) (b.set v).cpus t := by
  have left : ∀ i, b.left w.os.kernel (top - 36) (slotIndex i) =
      if i = b.running then some (top - 36) else w.os.kernel.saved (slotIndex i) :=
    fun i => saved_update _ b.running i _
  apply leaving.departs.toScheduler leaving.realises.room h.apart (h.words.congr leaving.words) h.user.noneScheduled
  · exact h.scheduler.congr fun a block => leaving.other h.apart.symm block
  · intro i sp other held
    rw [left, if_neg other] at held
    rw [Threads.set_of_ne other]
    exact (h.sleeping i sp other held).congr fun a block => leaving.other other block
  · intro sp held
    rw [left, if_pos rfl] at held
    rw [b.set_self]
    exact ⟨(Option.some.inj held).symm, leaving.realises⟩
  · rw [left, if_neg h.apart.symm]
    exact h.unscheduled

/-- **A switch away from a task that stays**, through a round of the scheduler. -/
theorem leave {v : TaskCpu} {e u : Cpu} {own : Context} {top : Word} {os' : Os} {sw : Switch}
    (h : Implements scheduler w b) (leaving : Leaving image.toImage w b v e own top)
    (rest : Reschedules image.toImage scheduler e top w.os sw u os') :
    ∃ next, w.os.step .atmega2560 (.yield sw) = .ok os' ∧ sw.sp = v.sp - 36 ∧
      Implements scheduler ⟨u, os'⟩ { b.set v with running := next } := by
  obtain ⟨step, saved⟩ := rest.switchAway h.user.noneScheduled
  obtain ⟨⟨next, resumed⟩, saves⟩ := SavedInv.yield h.user w.os.kernel.saved_inv step
  have after : w.os.kernel.saved.after w.os os' (.yield sw) = b.left w.os.kernel (top - 36) := by
    rw [Saved.after, indexOfCurrentTask, h.user.active, saved, Threads.left]
  rw [after] at resumed saves
  obtain ⟨next', user⟩ := h.user.step (a := .yield sw) step
  obtain rfl : next = next' := slotIndex_inj.mp (resumed.active.symm.trans user.active)
  refine ⟨next, step, leaving.realises.pointer ▸ saved, Lands.implements ?_ user saves⟩
  obtain ⟨t, ctx, toScheduler, -, at_scheduler⟩ := h.toScheduler leaving
  exact rest.lands toScheduler at_scheduler h.user.yielding resumed

theorem kill {slot : Fin tasksMax} {back : Pc} {kernel : Kernel} {u : Cpu} {os' : Os} {sw : Switch}
    (h : Implements scheduler w b) (active : w.os.kernel.schedule.activeTaskBlock = slotIndex slot)
    (killed : killCurrentTask .atmega2560 w.os.kernel = .ok kernel)
    (calls : CallsYield image.toImage slot w.cpu back)
    (rest : Reschedules image.toImage scheduler w.cpu (w.cpu.sp + 3) { w.os with kernel := kernel } sw u os') :
    ∃ next, next ≠ b.running ∧ w.os.step .atmega2560 (.kill sw) = .ok os' ∧
      Implements scheduler ⟨u, os'⟩ { b with running := next } := by
  obtain rfl : slot = b.running := slotIndex_inj.mp (active.symm.trans h.user.active)
  obtain ⟨away, -⟩ := rest.switchAway h.user.noneScheduled
  have step : w.os.step .atmega2560 (.kill sw) = .ok os' := bind_eq_ok.mpr ⟨kernel, killed, away⟩
  obtain ⟨⟨next, resumed⟩, saves⟩ := SavedInv.kill h.user w.os.kernel.saved_inv step
  obtain ⟨next', user⟩ := h.user.step (a := .kill sw) step
  obtain rfl : next = next' := slotIndex_inj.mp (resumed.active.symm.trans user.active)
  have after : ∀ i, w.os.kernel.saved.after w.os os' (.kill sw) (slotIndex i) =
      if i = b.running then none else w.os.kernel.saved (slotIndex i) := by
    intro i
    rw [Saved.after, indexOfCurrentTask, h.user.active, saved_update]
  have other : next ≠ b.running := by
    intro same
    have held := resumed.sp
    rw [after, if_pos same] at held
    cases held
  let own : Context := ⟨w.cpu.regs, { w.cpu.sreg with i := false }, back⟩
  have departs : Departs image.toImage w.cpu own (w.cpu.sp + 3) := .call back calls.pc calls.returns
  have words : Words w.cpu.mem { w.os with kernel := kernel } :=
    ⟨h.words.task, h.words.prev, h.words.next, h.words.scheduler⟩
  have gone : ∃ t ctx, RunsToReturn image.program w.cpu t ∧
      HandsOver w.cpu.mem (w.cpu.sp + 3) own w.os.schedulerTaskSp ctx t ∧
      AtScheduler scheduler { w.os with kernel := kernel } (w.os.kernel.saved.after w.os os' (.kill sw)) b.cpus t := by
    apply departs.toScheduler calls.room h.apart words h.user.noneScheduled h.scheduler
    · intro i sp other held
      rw [after, if_neg other] at held
      exact h.sleeping i sp other held
    · intro sp held
      rw [after, if_pos rfl] at held
      cases held
    · rw [after, if_neg h.apart.symm]
      exact h.unscheduled
  obtain ⟨t, ctx, toScheduler, -, at_scheduler⟩ := gone
  exact ⟨next, other, step, (rest.lands toScheduler at_scheduler (h.user.killed killed) resumed).implements user saves⟩

/-- `SET_RETURN_POINT` and `SAVE_CONTEXT` leave a context of the parent that returns to the macro's jump. -/
theorem runs_spawn {slot : Fin tasksMax} {s : Cpu} (start : s.pc = image.spawnAdr) (room : OnStack slot s.sp) :
    ∃ t ctx, steps image.program 55 s = some t ∧ SavedContext t.mem (s.sp - 36) ctx ∧ ctx.pc = image.spawnAdr + 13 ∧
      (∀ r, r ∉ returnPointRegisters → ctx.regs r = s.regs r) ∧
      ∀ a, a ∉ [taskSpAdr, taskSpAdr + 1] → 37 ≤ (s.sp - a).toNat → t.mem a = s.mem a := by
  have placed := image.spawn
  rw [← start, placed_append, codeSize_setReturnPoint] at placed
  obtain ⟨c, returning, sets⟩ := runs_setReturnPoint (P := fun _ _ => True) (F := fun _ => False) placed.1
    (fun _ => False.elim) fun _ _ _ _ => trivial
  have enters : Enters c ⟨c.regs, c.sreg, s.pc + 13⟩ := ⟨rfl, rfl, sets.returnsTo (start ▸ image.fits)⟩
  have saving : Runs image.program (fun _ _ => True) 41 c (execAll saveContext c) :=
    Runs.block (by rw [sets.pc]; exact placed.2) (by decide) fun _ _ _ => trivial
  have sp : (execAll pushContext c).sp = c.sp - 33 := by rw [execAll_pushContext]
  have mem : (execAll saveContext c).mem = writeWord (execAll pushContext c).mem taskSpAdr (c.sp - 33) := by
    rw [saveContext, execAll_append, (execAll_saveSpToAdr _ _).1, sp]
  have bottom : c.sp - 33 = s.sp - 36 := by
    rw [sets.sp]
    bv_omega
  refine ⟨_, ⟨c.regs, c.sreg, s.pc + 13⟩, (returning.trans saving).steps, ?_, start ▸ rfl, sets.registers, ?_⟩
  · rw [← bottom, mem]
    apply (pushContext_saved enters).congr
    intro a inside
    have covered : (s.sp - a).toNat < 36 := by
      rw [bottom, BitVec.sub_add_cancel] at inside
      exact inside
    exact writeWord_outside (room.clear_frame.ne covered (by decide)) (room.clear_frame.ne covered (by decide))
  · intro a other away
    simp only [List.mem_cons, List.not_mem_nil, or_false, not_or] at other
    rw [mem, writeWord_outside other.1 other.2, pushContext_mem, pushBytes_outside]
    · apply sets.kept
      omega
    · rw [registerBytes_length, sets.sp]
      bv_omega

theorem spawn {name : ProgmemString} {priority : Byte} {pid : Word} {new : Fin tasksMax} {t u : Cpu} {os' : Os}
    (h : Implements scheduler w b) (pc : w.cpu.pc = image.spawnAdr) (saves : steps image.program 55 w.cpu = some t)
    (spawned : spawnTask .atmega2560 name priority (w.cpu.sp - 36) w.os = .ok (pid, os'))
    (active : os'.kernel.schedule.activeTaskBlock = slotIndex new) (starts : StartsTask new t u os') :
    ∃ parent, new ≠ b.running ∧ w.cpu.sp - 36 = (b.cpus b.running).sp - 36 ∧
      ForksTo image.spawnAdr (b.cpus b.running) parent ∧
      Implements scheduler ⟨u, os'⟩ ⟨Function.update (b.set parent).cpus new (.ofCpu u), new⟩ := by
  have room := h.running.room
  obtain ⟨t', ctx, steps, frame, back, registers, kept⟩ := runs_spawn pc room
  obtain rfl := Option.some.inj (saves.symm.trans steps)
  obtain ⟨new', old, _, first, wasActive, -, -, kernel, -, -, sameScheduler⟩ := spawnTask_ok spawned
  obtain rfl : old = b.running := slotIndex_inj.mp (wasActive.symm.trans h.user.active)
  have here : os'.kernel.schedule.activeTaskBlock = slotIndex new' := by
    rw [kernel]
    rfl
  obtain rfl : new = new' := slotIndex_inj.mp (active.symm.trans here)
  obtain ⟨new', user⟩ := h.user.spawn spawned
  obtain rfl : new = new' := slotIndex_inj.mp (active.symm.trans user.active)
  have empty : w.os.kernel.status new = .empty := firstEmpty_some first
  have notRunning : new ≠ b.running := by
    rintro rfl
    cases empty.symm.trans h.runningStatus
  have notScheduler : scheduler ≠ new := by
    rintro rfl
    cases empty.symm.trans h.schedulerStatus
  -- what the parent's frame and the new task's start leave alone
  have same : ∀ i a, i ≠ new → InBlock i a → (i = b.running → w.cpu.sp < a) → u.mem a = w.cpu.mem a := by
    intro i a other block used
    have noCell : a ∉ [taskSpAdr, taskSpAdr + 1] := by
      have among : [taskSpAdr, taskSpAdr + 1] ⊆ switchCells := by decide
      exact fun member => block.notCell (among member)
    rw [starts.blocks i a other block]
    apply kept a noCell
    by_cases own : i = b.running
    · subst own
      exact room.above (used rfl) block
    · exact room.elsewhere block own
  let parent : TaskCpu :=
    { b.cpus b.running with
      regs := ctx.regs, carry := ctx.sreg.c, halfCarry := ctx.sreg.h, transfer := ctx.sreg.t, pc := ctx.pc }
  have atTop : OnStack b.running (w.cpu.sp - 36 + 36) := by
    rw [BitVec.sub_add_cancel]
    exact room
  have suspended : Suspended b.running parent (w.cpu.sp - 36) u.mem := by
    refine ⟨ctx, frame.block_congr atTop fun a block => starts.blocks _ a notRunning.symm block, ?_⟩
    · rw [BitVec.sub_add_cancel]
      refine ⟨rfl, rfl, rfl, rfl, h.running.pointer, rfl, ?_, room⟩
      intro a block used
      rw [same _ a notRunning.symm block fun _ => used]
      exact h.running.stack a block used
  have saves' : SavedInv os'.kernel (w.os.kernel.saved.after w.os os' (.spawn name priority (w.cpu.sp - 36))) :=
    w.os.kernel.saved_inv.spawn spawned
  refine ⟨parent, notRunning, by rw [h.running.pointer], ⟨?_, rfl, back, rfl⟩, user, starts.words, ?_, ?_, ?_⟩
  · intro r other
    exact (registers r other).trans (congrFun h.running.regs r).symm
  · show Realises new (Function.update (b.set parent).cpus new (.ofCpu u) new) _ _ _
    rw [Function.update_self]
    exact .ofCpu starts.room
  · intro i ready
    have notNew : i ≠ new := by
      rintro rfl
      cases ready.symm.trans ((user.kernel.status.running i).mpr rfl)
    have held := saves' i ready
    rw [Saved.after, indexOfCurrentTask, indexOfCurrentTask, h.user.active, user.active, saved_update] at held
    show Suspended i (Function.update (b.set parent).cpus new (.ofCpu u) i) _ _
    rw [Function.update_of_ne notNew]
    by_cases own : i = b.running
    · subst own
      rw [if_pos rfl] at held
      rw [b.set_self, ← Option.some.inj held]
      exact suspended
    · rw [if_neg own, saved_update, if_neg notNew] at held
      rw [Threads.set_of_ne own]
      exact (h.sleeping i _ own held).congr fun a block => same i a notNew block fun same => absurd same own
  · have waits := h.scheduler.congr fun a block => same scheduler a notScheduler block fun same => absurd same h.apart.symm
    rw [SchedulerWaits, sameScheduler]
    exact waits

end Implements

/-! ## All steps -/

/-- What a step of the machine is to the kernel. -/
def Os.Follows (os : Os) (label : Option Action) (os' : Os) : Prop :=
  match label with
  | none => os' = os
  | some a => os.step .atmega2560 a = .ok os'

/-- **One step of the machine** is a step of the tasks and a step of the kernel. -/
theorem Implements.step {image : SpawnImage} {scheduler : Fin tasksMax} {w w' : World} {b : Threads}
    {label : Option Action} (h : Implements scheduler w b) (step : World.Step image scheduler w label w') :
    ∃ b', Threads.Step image.spawnAdr b label b' ∧ Implements scheduler w' b' ∧ w.os.Follows label w'.os := by
  cases step with
  | compute active runs => exact ⟨_, .compute b _, h.compute active runs, rfl⟩
  | setPriority sets => exact ⟨b, .setPriority b _, h.setPriority sets, sets⟩
  | preempt enabled timer rest =>
    obtain ⟨next, step, saved, implements⟩ := h.leave (h.interrupted image.toImage) rest
    have unchanged : b.set (b.cpus b.running) = b := by rw [Threads.set, Function.update_eq_self]
    rw [unchanged] at implements
    exact ⟨_, .preempt next saved, implements, step⟩
  | @yield slot back _ _ _ active calls rest =>
    obtain rfl : slot = b.running := slotIndex_inj.mp (active.symm.trans h.user.active)
    obtain ⟨next, step, saved, implements⟩ := h.leave (h.yielded calls) rest
    exact ⟨_, .yield next saved, implements, step⟩
  | kill active killed calls rest =>
    obtain ⟨next, other, step, implements⟩ := h.kill active killed calls rest
    exact ⟨_, .kill next other, implements, step⟩
  | spawn pc saves spawned active starts =>
    obtain ⟨parent, other, saved, forks, implements⟩ := h.spawn pc saves spawned active starts
    exact ⟨_, .spawn _ other saved forks, implements, bind_eq_ok.mpr ⟨_, spawned, rfl⟩⟩

/-! ## The first switch -/

/-- The scheduler ends the first pass of its loop, and the switch will leave the kernel in the state `os`. The first
context of the scheduler lies above its stack pointer. -/
structure FirstPass (image : Image) (scheduler : Fin tasksMax) (os : Os) (y : Cpu) (back : Pc) : Prop where
  calls : CallsYield image scheduler y back
  words : ∃ done : Os, Words y.mem done ∧ done.contextSwtich (y.sp - 33) = os
  waits : SchedulerWaits scheduler os y.mem
  below : y.sp + 3 ≤ os.schedulerTaskSp

/-- **After a boot** the machine implements the idle task. -/
theorem boot_implements {image : Image} {mainSp idleSp : Word} {schedulerSwitch : Switch} {os : Os} {y : Cpu} {back : Pc}
    {v : TaskCpu} (booted : boot .atmega2560 mainSp idleSp schedulerSwitch = .ok os)
    (pass : FirstPass image 1 os y back) (idle : Suspended 0 v idleSp y.mem) :
    ∃ u, RunsToReturn image.program y u ∧ Implements 1 ⟨u, os⟩ ⟨fun _ => v, 0⟩ ∧
      (CanariesIntact y.mem → CanariesIntact u.mem) := by
  have serves := boot_serves booted
  obtain ⟨scheduler, user⟩ := serves.user
  obtain rfl : scheduler = some 1 := (user.kernel.status.scheduler 1).mp (serves.status 1)
  obtain ⟨⟨next, resumed⟩, saves⟩ := boot_saved booted
  obtain rfl : next = 0 := slotIndex_inj.mp (resumed.active.symm.trans user.active)
  obtain ⟨done, words, rfl⟩ := pass.words
  have yields : SchedulerYields image 1 done (bootSaved idleSp) (fun _ => v) y back := by
    refine ⟨pass.calls, words, ?_⟩
    intro i sp held
    rw [bootSaved, saved_update] at held
    split at held
    · rename_i here
      subst here
      rw [← Option.some.inj held]
      exact ⟨by decide, idle⟩
    · cases held
  obtain ⟨u, runs, lands, canaries⟩ := yields.toTask resumed fun mem _ kept => by
    obtain ⟨⟨ctx, saved⟩, room⟩ := pass.waits
    refine ⟨⟨ctx, saved.congr fun a inside => ?_⟩, room⟩
    apply kept a (room.inside (Nat.lt_succ_of_lt inside))
    have below := pass.below
    have := room.low
    have := room.high
    have := slot_lt (1 : Fin tasksMax)
    bv_omega
  exact ⟨u, runs, lands.implements user saves, canaries⟩

end Simplos
